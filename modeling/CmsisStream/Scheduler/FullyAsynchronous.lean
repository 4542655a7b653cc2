import CmsisStream.Scheduler.GraphPorts

/-!
# The schedule of the fully asynchronous mode

The graph is the one the user has built: an output may be connected to several inputs, and an
input to several outputs.  The `Duplicate` nodes inserted before the layers are computed have one
input, which is never weak, and weak outputs where the user has asked for a weak edge.
-/

namespace CmsisStream.Scheduler

namespace ConnectedGraph

variable {N O I F : Type}

/-- An edge which is not weak goes from the first node to the second. -/
def Feeds (ios : StreamingNodes N O I) (g : ConnectedGraph N O I F) (source target : GraphNode N) :
    Prop :=
  ∃ e ∈ g.edges, ¬ e.weak ∧ outputOwner ios e.src = source ∧ inputOwner ios e.dst = target

/-- The edges which are not weak form no directed cycle. -/
def Acyclic (ios : StreamingNodes N O I) (g : ConnectedGraph N O I F) : Prop :=
  ∀ node, ¬ Relation.TransGen (g.Feeds ios) node node

/-- The paths of edges which are not weak and end at a node have less edges than a number. -/
def Below (ios : StreamingNodes N O I) (g : ConnectedGraph N O I F) : ℕ → GraphNode N → Prop
  | 0, _ => False
  | depth + 1, node => ∀ source, g.Feeds ios source node → Below ios g depth source

/-- The `fifo` fields of the inputs are the edges which are not weak. -/
def KeepsEdges (g : ConnectedGraph N O I F) : Prop :=
  ∀ e ∈ g.edges, ¬ e.weak → g.inputFifo e.dst = .edge e.key

section Paths

variable [DecidableEq N] [DecidableEq O] [DecidableEq I] {ios : StreamingNodes N O I}
  {mode : SchedulingMode} {g h : ConnectedGraph N O I F}

variable (connected : WellConnected ios g)
  (inserted : InsertedUpTo ios mode g (g.userOutputs ios) h)

end Paths

section Schedule

variable [DecidableEq N] [DecidableEq O] [DecidableEq I] {nodes : SchedulableNodes N O I}
  {mode : SchedulingMode} {g h : ConnectedGraph N O I F}

/-- `_topologicalSort`, with the nodes for their numbers. -/
def topologicalSort (h : ConnectedGraph N O I F) (resolved : Resolved nodes h) :
    List (List (GraphNode N)) :=
  (h.asyncGraph resolved).computeSourceTopologicalSortOfNodes.map
    (List.map (h.sortedNodes nodes).get)

variable {resolved : Resolved nodes h}

end Schedule

/-! ### Two sources and a sink -/

end ConnectedGraph

end CmsisStream.Scheduler
