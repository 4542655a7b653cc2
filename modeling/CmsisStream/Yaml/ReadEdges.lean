import CmsisStream.Yaml.RoundTrip
import Mathlib.Data.List.Forall2

/-!
# The edges which are read

An item of `edges` connects two IOs, and adds at most one edge.  So when a graph has as many edges
as its description, each edge comes from the item at the same place.
-/

namespace CmsisStream.Yaml

/-- What is read of the class of a FIFO. -/
def readClass (strToClass : String → Option FIFOClass) (missing : FIFOClass)
    (className : Option String) : Except ImportError FIFOClass := do
  let fifoClass ← className.mapM (getClassName strToClass)
  pure (fifoClass.getD missing)

/-- An edge which is connected for an item of `edges`. -/
structure EdgeDesc.Gives (strToClass : String → Option FIFOClass)
    (nodes : String → Option Imported) (default : FIFOClass) (desc : EdgeDesc) (e : Edge String) :
    Prop where
  srcNode : e.src.node = desc.srcNode
  dstNode : e.dst.node = desc.dstNode
  src : ∃ n, nodes desc.srcNode = some (.node n) ∧ n.getItem e.src.name = some e.src.isInput
  dst : ∃ n, nodes desc.dstNode = some (.node n) ∧ n.getItem e.dst.name = some e.dst.isInput
  fifoClass : readClass strToClass default desc.fifoClass = .ok e.fifoClass
  fifoScale : e.fifoScale = desc.scale.getD 1
  fifoAsyncLength : e.fifoAsyncLength = desc.asyncLength
  named : ∀ constraint, desc.bufferConstraint = some constraint → constraint.name ≠ none

section Steps

variable {strToClass : String → Option FIFOClass} {nodes : String → Option Imported}
  {g next : Graph String} {desc : EdgeDesc}

theorem endOf_ok {name io : String} {imported : Imported} {e : EdgeEnd String}
    (ok : endOf name io imported = .ok e) :
    e.node = name ∧ ∃ n, imported = .node n ∧ n.getItem e.name = some e.isInput := by
  cases imported with
  | constant constant => cases ok
  | node n =>
      simp only [endOf] at ok
      split at ok
      · rename_i isInput found
        cases ok
        exact ⟨rfl, n, rfl, found⟩
      · cases ok

theorem edgeOptions_ok {options : ConnectOptions} (ok : edgeOptions strToClass desc = .ok options)
    (default : FIFOClass) :
    readClass strToClass default desc.fifoClass = .ok (options.fifoClass.getD default) ∧
      options.fifoScale = desc.scale.getD 1 ∧ options.fifoAsyncLength = desc.asyncLength ∧
      ∀ constraint, desc.bufferConstraint = some constraint → constraint.name ≠ none := by
  simp only [edgeOptions, bind, Except.bind] at ok
  cases isClass : desc.fifoClass.mapM (getClassName strToClass) with
  | error error =>
      rw [isClass] at ok
      cases ok
  | ok fifoClass =>
      rw [isClass] at ok
      simp only at ok
      cases buffer : desc.bufferConstraint.mapM fun constraint => key "name" constraint.name with
      | error error =>
          rw [buffer] at ok
          cases ok
      | ok name =>
          rw [buffer] at ok
          cases ok
          refine ⟨?_, rfl, rfl, fun constraint isConstraint none => ?_⟩
          · rw [readClass, isClass]
            rfl
          · rw [isConstraint] at buffer
            simp only [Option.mapM_some, none, key] at buffer
            cases buffer

/-- A connection adds at most one edge, whose attributes are those of the options. -/
structure Graph.Adds (g next : Graph String) (a b : EdgeEnd String) (options : ConnectOptions) :
    Prop where
  length : next.edges.length ≤ g.edges.length + 1
  last : next.edges.length = g.edges.length + 1 →
    (a, b) ∉ g.edges.map Edge.key ∧ ∃ e, next.edges = g.edges ++ [e] ∧ e.src = a ∧ e.dst = b ∧
      e.fifoClass = options.fifoClass.getD g.defaultFIFOClass ∧
      e.fifoScale = options.fifoScale ∧ e.fifoAsyncLength = options.fifoAsyncLength
  defaultFIFOClass : next.defaultFIFOClass = g.defaultFIFOClass

section Connect

variable {a b : EdgeEnd String} {options : ConnectOptions}

theorem connect_adds (ok : g.connect a b options = .ok next) : g.Adds next a b options := by
  rcases connect_ok ok with ⟨src, dst, -, -, -, -, rfl⟩
  let e := g.connectedEdge a b src dst options (g.edges.find? fun e => (e.src, e.dst) = (a, b))
  have length : (setEdge e g.edges).length = ((setEdge e g.edges).map Edge.key).length :=
    (List.length_map ..).symm
  rw [map_key_setEdge] at length
  by_cases mem : e.key ∈ g.edges.map Edge.key
  · rw [if_pos mem, List.length_map] at length
    refine ⟨length.trans_le (Nat.le_succ _), fun longer => ?_, rfl⟩
    change (setEdge e g.edges).length = _ at longer
    omega
  · rw [if_neg mem, List.length_append, List.length_map, List.length_singleton] at length
    exact ⟨length.le, fun _ => ⟨mem, e, setEdge_new mem, rfl, rfl, rfl, rfl, rfl⟩, rfl⟩

theorem connectWithDelay_adds {delay : ℤ}
    (ok : g.connectWithDelay a b delay options = .ok next) : g.Adds next a b options := by
  simp only [Graph.connectWithDelay, bind, Except.bind, pure, Except.pure] at ok
  cases connect : g.connect a b options with
  | error error =>
      rw [connect] at ok
      cases ok
  | ok connected =>
      rw [connect] at ok
      cases ok
      have adds := connect_adds connect
      have length : (setDelay a b delay connected.edges).length = connected.edges.length :=
        List.length_map ..
      refine ⟨length.trans_le adds.length, fun longer => ?_, adds.defaultFIFOClass⟩
      rcases adds.last (length.symm.trans longer) with
        ⟨new, e, edges, src, dst, fifoClass, fifoScale, asyncLength⟩
      have isKey : (e.src, e.dst) = (a, b) := by rw [src, dst]
      have delayed : setDelay a b delay connected.edges =
          g.edges ++ [{ e with delay := some delay }] := by
        rw [edges, setDelay, List.map_append, ← setDelay, setDelay_eq new, List.map_singleton,
          if_pos isKey]
      exact ⟨new, _, delayed, src, dst, fifoClass, fifoScale, asyncLength⟩

end Connect

/-- An item of `edges` between two streaming IOs adds at most one edge. -/
theorem importEdge_adds {output : String} (isOutput : desc.output = some output)
    (ok : importEdge strToClass nodes g desc = .ok next) :
    next.edges.length ≤ g.edges.length + 1 ∧
      (next.edges.length = g.edges.length + 1 → ∃ e, next.edges = g.edges ++ [e] ∧
        desc.Gives strToClass nodes g.defaultFIFOClass e) ∧
      next.defaultFIFOClass = g.defaultFIFOClass := by
  have adds : ∃ a b options src dst, g.Adds next a b options ∧
      key desc.srcNode (nodes desc.srcNode) = .ok src ∧
      key desc.dstNode (nodes desc.dstNode) = .ok dst ∧
      endOf desc.srcNode output src = .ok a ∧ endOf desc.dstNode desc.input dst = .ok b ∧
      edgeOptions strToClass desc = .ok options := by
    simp only [importEdge, isOutput, bind, Except.bind] at ok
    split at ok
    · cases ok
    rename_i src isSrc
    split at ok
    · cases ok
    rename_i dst isDst
    split at ok
    · cases ok
    rename_i options isOptions
    split at ok
    · cases ok
    rename_i a isA
    split at ok
    · cases ok
    rename_i b isB
    refine ⟨a, b, options, src, dst, ?_, isSrc, isDst, isA, isB, isOptions⟩
    split at ok
    · exact connectWithDelay_adds (raised_ok ok)
    · exact connect_adds (raised_ok ok)
  have found : ∀ {name : String} {imported : Imported}, key name (nodes name) = .ok imported →
      nodes name = some imported := by
    intro name imported isKey
    cases value : nodes name with
    | none =>
        rw [value] at isKey
        cases isKey
    | some other =>
        rw [value] at isKey
        exact congrArg some (Except.ok.inj isKey)
  rcases adds with ⟨a, b, options, src, dst, adds, isSrc, isDst, isA, isB, isOptions⟩
  refine ⟨adds.length, fun longer => ?_, adds.defaultFIFOClass⟩
  rcases adds.last longer with ⟨-, e, edges, rfl, rfl, fifoClass, fifoScale, asyncLength⟩
  rcases edgeOptions_ok isOptions g.defaultFIFOClass with ⟨readFIFO, readScale, readLength, named⟩
  rcases endOf_ok isA with ⟨srcNode, srcOf, rfl, srcItem⟩
  rcases endOf_ok isB with ⟨dstNode, dstOf, rfl, dstItem⟩
  exact ⟨e, edges, srcNode, dstNode, ⟨srcOf, found isSrc, srcItem⟩, ⟨dstOf, found isDst, dstItem⟩,
    fifoClass ▸ readFIFO, fifoScale.trans readScale, asyncLength.trans readLength, named⟩

/-- When there are as many edges as items, each edge comes from the item at its place. -/
theorem foldlM_importEdge_gives {descs : List EdgeDesc} {last : Graph String}
    (outputs : ∀ desc ∈ descs, ∃ output, desc.output = some output)
    (ok : descs.foldlM (importEdge strToClass nodes) g = .ok last) :
    last.edges.length ≤ g.edges.length + descs.length ∧
      (last.edges.length = g.edges.length + descs.length → ∃ new, last.edges = g.edges ++ new ∧
        List.Forall₂ (EdgeDesc.Gives strToClass nodes g.defaultFIFOClass) descs new) ∧
      last.defaultFIFOClass = g.defaultFIFOClass := by
  induction descs generalizing g with
  | nil =>
      cases ok
      exact ⟨le_rfl, fun _ => ⟨[], (List.append_nil _).symm, .nil⟩, rfl⟩
  | cons desc descs ih =>
      rw [List.foldlM_cons] at ok
      cases first : importEdge strToClass nodes g desc with
      | error error =>
          rw [first] at ok
          cases ok
      | ok next =>
          rw [first] at ok
          rcases outputs desc (by simp) with ⟨output, isOutput⟩
          rcases importEdge_adds isOutput first with ⟨length, adds, default⟩
          rcases ih (fun other mem => outputs other (List.mem_cons_of_mem _ mem)) ok with
            ⟨restLength, rest, restDefault⟩
          rw [List.length_cons]
          refine ⟨by omega, fun longer => ?_, restDefault.trans default⟩
          rcases adds (by omega) with ⟨e, edges, gives⟩
          rcases rest (by omega) with ⟨new, newEdges, newGives⟩
          rw [default] at newGives
          refine ⟨e :: new, ?_, .cons gives newGives⟩
          rw [newEdges, edges, List.append_assoc, List.singleton_append]

end Steps

end CmsisStream.Yaml
