import CmsisStream.Yaml.TypeTable

/-!
# The nodes which come back

A node is made again from its description: its class or its function, its IOs in their order with
their constraints, and its arguments.
-/

namespace CmsisStream.Yaml

open Scheduler (NbSamples)

/-- A constraint, if there is one, has a name which is written. -/
def ConstraintKept (constraint : Option BufferConstraint) : Prop :=
  ∀ c, constraint = some c → ∃ name, c.name = some name ∧ name ≠ ""

/-- IOs which are read as they were.  The names in a list of IOs are looked for keys. -/
structure Ports.Kept (ports : Ports) : Prop where
  nodup : (ports.list.map IOPort.name).Nodup
  named : ∀ io ∈ ports.list, ConstraintKept io.bufferConstraint
  plain : ∀ theType length ios, ports = .many theType length ios → ∀ io ∈ ios, io.2 = none →
    isIn "name" io.1 = false ∧ isIn "buffer-constraint" io.1 = false

theorem Ports.Kept.of_unconstrained {ios : List IOPort}
    (noConstraint : ∀ io ∈ ios, io.bufferConstraint = none)
    (nodup : ((Ports.each ios).list.map IOPort.name).Nodup) : (Ports.each ios).Kept := by
  refine ⟨nodup, fun io mem c isConstraint => ?_, by simp⟩
  rw [noConstraint io mem] at isConstraint
  cases isConstraint

/-- A node before its arguments are added. -/
def Node.withoutArgs (n : Node) : Node := { n with schedArgs := [] }

/-- The node of a kind is made again from its description. -/
def Node.KindKept (n : Node) (counters : NodeIDs) : Prop :=
  match n.kind with
  | .cpp _ _ =>
      (n.inputs = .each [] → ∃ io ios, n.outputs = .each (io :: ios)) ∧
        (n.outputs = .each [] → ∃ io ios, n.inputs = .each (io :: ios))
  | .unary funcname _ => ∃ theType length,
      n.withoutArgs = newUnary counters funcname theType length
  | .binary funcname _ => ∃ theType length,
      n.withoutArgs = newBinary counters funcname theType length
  | .genericFunction funcname args =>
      n.nodeID = funcname ++ toString (counters funcname) ∧ functionName funcname args = funcname ∧
        (∃ io ios, n.inputs = .each (io :: ios)) ∧ ∃ io ios, n.outputs = .each (io :: ios)

/-- A node which is read as it was, when the counters of the functions are given. -/
structure Node.Kept (n : Node) (counters : NodeIDs) : Prop where
  inputs : n.inputs.Kept
  outputs : n.outputs.Kept
  separate : ∀ io ∈ n.outputs.list, io.bufferConstraint ≠ none →
    ∀ other ∈ n.inputs.list, other.name ≠ io.name
  args : n.schedArgs.foldl addArg [] = n.schedArgs
  kind : n.KindKept counters

/-- The counters after a node is made. -/
def Node.used (n : Node) (counters : NodeIDs) : NodeIDs :=
  match n.kind with
  | .cpp _ _ => counters
  | .unary funcname _ | .binary funcname _ | .genericFunction funcname _ => counters.used funcname

/-! ### One side of a node -/

namespace Node

/-- The IOs of one side. -/
def ports (n : Node) (isInput : Bool) : Ports := if isInput then n.inputs else n.outputs

/-- The node with other IOs on one side. -/
def setPorts (n : Node) (isInput : Bool) (ports : Ports) : Node :=
  if isInput then { n with inputs := ports } else { n with outputs := ports }

variable {n : Node} {isInput : Bool} {ports other : Ports}

@[simp]
theorem ports_setPorts : (n.setPorts isInput ports).ports isInput = ports := by
  cases isInput <;> rfl

@[simp]
theorem setPorts_setPorts :
    (n.setPorts isInput other).setPorts isInput ports = n.setPorts isInput ports := by
  cases isInput <;> rfl

@[simp]
theorem setPorts_ports : n.setPorts isInput (n.ports isInput) = n := by
  cases isInput <;> rfl

theorem ios_eq : n.ios isInput = (n.ports isInput).list := by
  cases isInput <;> rfl

theorem addPort_eq (io : IOPort) :
    n.addPort isInput io = n.setPorts isInput ((n.ports isInput).add io) := by
  cases isInput <;> rfl

/-- What is not an input of the node. -/
def Separate (n : Node) (isInput : Bool) (name : String) : Prop :=
  isInput = false → ∀ other ∈ n.inputs.list, other.name ≠ name

theorem Separate.setPorts {name : String} (separate : n.Separate isInput name) :
    (n.setPorts isInput ports).Separate isInput name := by
  rintro rfl
  exact separate rfl

/-- The side on which an IO is found. -/
theorem getItem_eq {name : String} (separate : n.Separate isInput name)
    (mem : ∃ io ∈ (n.ports isInput).list, io.name = name) : n.getItem name = some isInput := by
  have found : (n.findPort isInput name).isSome = true := by
    rcases mem with ⟨io, mem, isName⟩
    rw [findPort, List.find?_isSome, ios_eq]
    exact ⟨io, mem, by simpa using isName⟩
  cases isInput with
  | true => rw [getItem, if_pos found]
  | false =>
      have notInput : ¬(n.findPort true name).isSome = true := by
        rw [findPort, List.find?_isSome]
        rintro ⟨other, mem, isName⟩
        exact separate rfl other mem (by simpa using isName)
      rw [getItem, if_neg notInput, if_pos found]

theorem setBufferConstraint_eq {name : String} (constraint : BufferConstraint)
    (separate : n.Separate isInput name) (mem : ∃ io ∈ (n.ports isInput).list, io.name = name) :
    n.setBufferConstraint name constraint =
      .ok (n.setPorts isInput ((n.ports isInput).setConstraint name constraint)) := by
  rw [setBufferConstraint, getItem_eq separate mem]
  cases isInput <;> rfl

/-- A constraint is read as it was. -/
theorem addBufferConstraint_eq {name : String} {constraint : BufferConstraint}
    (kept : ConstraintKept (some constraint)) :
    addBufferConstraint (some (mkBufferConstraint constraint)) n name =
      n.setBufferConstraint name constraint := by
  rcases kept constraint rfl with ⟨isName, some, notEmpty⟩
  rcases constraint with ⟨_, mustBeArray, assignedByNode, canBeShared⟩
  cases some
  have written : Option.filter (fun name => decide (name ≠ "")) (Option.some isName) =
      Option.some isName := by
    simp [Option.filter, notEmpty]
  simp only [addBufferConstraint, mkBufferConstraint, written, key, bind, Except.bind]

end Node

/-! ### A list of IOs -/

section Each

variable {cstruct : Structs} {n : Node} {isInput : Bool} {done : List IOPort} {io : IOPort}

theorem setPort_eq (new : ∀ other ∈ done, other.name ≠ io.name) :
    setPort io done = done ++ [io] := by
  have none : ¬(done.any fun other => other.name = io.name) = true := by
    simpa using new
  rw [setPort, if_neg none]

/-- An IO is read as it was. -/
theorem processItem_eq (before : n.ports isInput = .each done)
    (new : ∀ other ∈ done, other.name ≠ io.name) (named : ConstraintKept io.bufferConstraint)
    (separate : io.bufferConstraint ≠ none → n.Separate isInput io.name)
    (isType : dataType cstruct io.theType.ctype = .ok io.theType) :
    processItem cstruct isInput n (createYAMLPort io) =
      .ok (n.setPorts isInput (.each (done ++ [io]))) := by
  let plain : IOPort := ⟨io.name, io.theType, io.nbSamples, none⟩
  have added : n.addPort isInput plain = n.setPorts isInput (.each (done ++ [plain])) := by
    have appended : setPort plain done = done ++ [plain] := setPort_eq new
    rw [Node.addPort_eq, before, Ports.add, appended]
  have read : processItem cstruct isInput n (createYAMLPort io) =
      addBufferConstraint (io.bufferConstraint.map mkBufferConstraint)
        (n.setPorts isInput (.each (done ++ [plain]))) io.name := by
    rw [← added]
    simp only [processItem, createYAMLPort, isType, bind, Except.bind]
    rfl
  rw [read]
  cases constraint : io.bufferConstraint with
  | none =>
      have same : plain = io := by
        rcases io with ⟨name, theType, nbSamples, _⟩
        cases constraint
        rfl
      rw [same]
      rfl
  | some c =>
      have others : (done.map fun other =>
          if other.name = io.name then { other with bufferConstraint := some c } else other) =
            done := by
        conv_rhs => rw [← List.map_id done]
        apply List.map_congr_left
        intro other mem
        rw [if_neg (new other mem)]
        rfl
      have last : ({ plain with bufferConstraint := some c } : IOPort) = io := by
        rcases io with ⟨name, theType, nbSamples, _⟩
        cases constraint
        rfl
      rw [constraint] at named
      rw [Option.map_some, Node.addBufferConstraint_eq named,
        Node.setBufferConstraint_eq c (separate (by simp [constraint])).setPorts
          ⟨plain, by simp [Ports.list], rfl⟩,
        Node.ports_setPorts, Node.setPorts_setPorts, Ports.setConstraint, List.map_append, others]
      simp only [List.map_cons, List.map_nil, plain, if_true]
      rw [← last]

/-- The IOs of one side are read in their order. -/
theorem foldlM_processItem (rest : List IOPort) (before : n.ports isInput = .each done)
    (nodup : ((done ++ rest).map IOPort.name).Nodup)
    (named : ∀ io ∈ rest, ConstraintKept io.bufferConstraint)
    (separate : ∀ io ∈ rest, io.bufferConstraint ≠ none → n.Separate isInput io.name)
    (types : ∀ io ∈ rest, dataType cstruct io.theType.ctype = .ok io.theType) :
    (rest.map createYAMLPort).foldlM (processItem cstruct isInput) n =
      .ok (n.setPorts isInput (.each (done ++ rest))) := by
  induction rest generalizing n done with
  | nil =>
      rw [List.append_nil, ← before, Node.setPorts_ports]
      rfl
  | cons io rest ih =>
      have new : ∀ other ∈ done, other.name ≠ io.name := by
        intro other mem same
        rw [List.map_append, List.nodup_append] at nodup
        exact nodup.2.2 other.name (List.mem_map_of_mem mem) io.name (by simp) same
      have first := processItem_eq before new (named io (by simp)) (separate io (by simp))
        (types io (by simp))
      rw [List.map_cons, List.foldlM_cons, first]
      change (rest.map createYAMLPort).foldlM (processItem cstruct isInput)
        (n.setPorts isInput (.each (done ++ [io]))) = _
      rw [ih Node.ports_setPorts (by simpa using nodup)
        (fun other mem => named other (List.mem_cons_of_mem _ mem))
        (fun other mem constrained =>
          (separate other (List.mem_cons_of_mem _ mem) constrained).setPorts)
        (fun other mem => types other (List.mem_cons_of_mem _ mem)), Node.setPorts_setPorts,
        List.append_assoc, List.singleton_append]

end Each

section Many

variable {cstruct : Structs} {n : Node} {isInput : Bool} {theType : SampleType}
  {length : NbSamples} {done : List (String × Option BufferConstraint)}

/-- The names which are left have no constraint yet. -/
def unconstrained (rest : List (String × Option BufferConstraint)) :
    List (String × Option BufferConstraint) :=
  rest.map fun io => (io.1, none)

theorem manyNames_eq {ios : List (String × Option BufferConstraint)}
    (nodup : (ios.map Prod.fst).Nodup) : manyNames (ios.map Prod.fst) = unconstrained ios := by
  have all : ∀ (names before : List String), (before ++ names).Nodup →
      names.foldl addNew before = before ++ names := by
    intro names
    induction names with
    | nil => simp
    | cons name names ih =>
        intro before nodup
        have new : name ∉ before := by
          intro mem
          rw [List.nodup_append] at nodup
          exact nodup.2.2 name mem name (by simp) rfl
        rw [List.foldl_cons, addNew, if_neg new, ih _ (by simpa using nodup)]
        simp
  rw [manyNames, all _ [] (by simpa using nodup), List.nil_append, unconstrained, List.map_map]
  rfl

/-- An item of a list of IOs is read as it was. -/
theorem addManyConstraint_eq {io : String × Option BufferConstraint}
    {rest : List (String × Option BufferConstraint)}
    (before : n.ports isInput = .many theType length (done ++ unconstrained (io :: rest)))
    (nodup : ((done ++ io :: rest).map Prod.fst).Nodup) (named : ConstraintKept io.2)
    (separate : io.2 ≠ none → n.Separate isInput io.1)
    (plain : io.2 = none → isIn "name" io.1 = false ∧ isIn "buffer-constraint" io.1 = false) :
    addManyConstraint n (createManyItem io) =
      .ok (n.setPorts isInput (.many theType length (done ++ [io] ++ unconstrained rest))) := by
  rcases io with ⟨name, constraint⟩
  cases constraint with
  | none =>
      rcases plain rfl with ⟨notName, notConstraint⟩
      have same : done ++ [(name, none)] ++ unconstrained rest =
          done ++ unconstrained ((name, none) :: rest) := by
        simp [unconstrained]
      rw [same, ← before, Node.setPorts_ports]
      simp [addManyConstraint, createManyItem, getManyIOName, notName, notConstraint, bind,
        Except.bind]
  | some c =>
      have apart : ∀ other ∈ done ++ unconstrained rest, other.1 ≠ name := by
        rw [List.map_append, List.map_cons, List.nodup_append] at nodup
        rcases nodup with ⟨-, later, earlier⟩
        intro other mem same
        rcases List.mem_append.mp mem with mem | mem
        · exact earlier other.1 (List.mem_map_of_mem mem) name (by simp) same
        · rcases List.mem_map.mp mem with ⟨item, itemMem, rfl⟩
          have isName : item.1 = name := same
          exact (List.nodup_cons.mp later).1 (List.mem_map.mpr ⟨item, itemMem, isName⟩)
      have others : ∀ l : List (String × Option BufferConstraint), (∀ other ∈ l, other.1 ≠ name) →
          (l.map fun io => if io.1 = name then (io.1, some c) else io) = l := by
        intro l new
        conv_rhs => rw [← List.map_id l]
        apply List.map_congr_left
        intro other mem
        rw [if_neg (new other mem)]
        rfl
      have mem : ∃ io ∈ (n.ports isInput).list, io.name = name := by
        rw [before]
        exact ⟨⟨name, theType, length, none⟩, by simp [Ports.list, unconstrained], rfl⟩
      have read : addManyConstraint n (createManyItem (name, some c)) =
          addBufferConstraint (some (mkBufferConstraint c)) n name := by
        simp [addManyConstraint, createManyItem, getManyIOName, bind, Except.bind]
      rw [read, Node.addBufferConstraint_eq named,
        Node.setBufferConstraint_eq c (separate (by simp)) mem,
        before, Ports.setConstraint, List.map_append, unconstrained, List.map_cons, List.map_cons,
        others done fun other mem => apart other (List.mem_append_left _ mem),
        ← unconstrained,
        others (unconstrained rest) fun other mem => apart other (List.mem_append_right _ mem)]
      simp

theorem foldlM_addManyConstraint (rest : List (String × Option BufferConstraint))
    (before : n.ports isInput = .many theType length (done ++ unconstrained rest))
    (nodup : ((done ++ rest).map Prod.fst).Nodup) (named : ∀ io ∈ rest, ConstraintKept io.2)
    (separate : ∀ io ∈ rest, io.2 ≠ none → n.Separate isInput io.1)
    (plain : ∀ io ∈ rest, io.2 = none →
      isIn "name" io.1 = false ∧ isIn "buffer-constraint" io.1 = false) :
    (rest.map createManyItem).foldlM addManyConstraint n =
      .ok (n.setPorts isInput (.many theType length (done ++ rest))) := by
  induction rest generalizing n done with
  | nil =>
      rw [List.append_nil]
      rw [unconstrained, List.map_nil, List.append_nil] at before
      rw [← before, Node.setPorts_ports]
      rfl
  | cons io rest ih =>
      have first := addManyConstraint_eq before nodup (named io (by simp)) (separate io (by simp))
        (plain io (by simp))
      rw [List.map_cons, List.foldlM_cons, first]
      change (rest.map createManyItem).foldlM addManyConstraint
        (n.setPorts isInput (.many theType length (done ++ [io] ++ unconstrained rest))) = _
      rw [ih Node.ports_setPorts (by simpa using nodup)
        (fun other mem => named other (List.mem_cons_of_mem _ mem))
        (fun other mem constrained =>
          (separate other (List.mem_cons_of_mem _ mem) constrained).setPorts)
        (fun other mem => plain other (List.mem_cons_of_mem _ mem)), Node.setPorts_setPorts,
        List.append_assoc, List.singleton_append]

end Many

/-! ### A node -/

section Node

variable {cstruct : Structs} {n : Node} {isInput : Bool} {ports : Ports}

/-- The IOs of a node in its description, when there are some. -/
theorem createPorts_each (io : IOPort) (ios : List IOPort) :
    createPorts (.each (io :: ios)) = some (.each ((io :: ios).map createYAMLPort)) := rfl

theorem processEach_eq {ios : List IOPort} (fresh : n.ports isInput = .each [])
    (kept : (Ports.each ios).Kept)
    (separate : ∀ io ∈ (Ports.each ios).list, io.bufferConstraint ≠ none →
      n.Separate isInput io.name)
    (types : ∀ t ∈ (Ports.each ios).types, dataType cstruct t.ctype = .ok t) :
    processEach cstruct isInput n (.each (ios.map createYAMLPort)) =
      .ok (n.setPorts isInput (.each ios)) := by
  rw [processEach, foldlM_processItem ios fresh (by simpa [Ports.list] using kept.nodup)
    kept.named separate, List.nil_append]
  intro io mem
  exact types io.theType (List.mem_map_of_mem mem)

theorem mapM_getManyIOName {ios : List (String × Option BufferConstraint)}
    (plain : ∀ io ∈ ios, io.2 = none → isIn "name" io.1 = false) :
    (ios.map createManyItem).mapM getManyIOName = .ok (ios.map Prod.fst) := by
  induction ios with
  | nil => rfl
  | cons io ios ih =>
      have first : getManyIOName (createManyItem io) = .ok io.1 := by
        rcases io with ⟨name, constraint⟩
        cases constraint with
        | none => simp [createManyItem, getManyIOName, plain (name, none) (by simp) rfl]
        | some c => rfl
      rw [List.map_cons, List.mapM_cons, first,
        ih fun other mem => plain other (List.mem_cons_of_mem _ mem)]
      rfl

/-- The IOs of one side are read as they were. -/
theorem processPorts_eq {desc : PortsDesc} (created : createPorts ports = some desc)
    (fresh : n.ports isInput = .each []) (kept : ports.Kept)
    (separate : ∀ io ∈ ports.list, io.bufferConstraint ≠ none → n.Separate isInput io.name)
    (types : ∀ t ∈ ports.types, dataType cstruct t.ctype = .ok t) :
    processPorts cstruct isInput n desc = .ok (n.setPorts isInput ports) := by
  cases ports with
  | each ios =>
      cases ios with
      | nil => cases created
      | cons io ios =>
          cases created
          exact processEach_eq fresh kept separate types
  | many theType length ios =>
      cases created
      have isPlain := kept.plain theType length ios rfl
      have names := mapM_getManyIOName fun io mem none => (isPlain io mem none).1
      have nodup : (ios.map Prod.fst).Nodup := by
        simpa [Ports.list, Function.comp_def] using kept.nodup
      have start : ∀ l, (if isInput then { n with inputs := l } else { n with outputs := l }) =
          n.setPorts isInput l := fun _ => rfl
      simp only [processPorts, PortsDesc.hasList, if_true, processMany, processList,
        types theType (by simp [Ports.types]), names, manyNames_eq nodup, bind, Except.bind]
      rw [start]
      have before : (n.setPorts isInput (.many theType length (unconstrained ios))).ports isInput =
          .many theType length ([] ++ unconstrained ios) := Node.ports_setPorts
      have each : ∀ io ∈ ios, (⟨io.1, theType, length, io.2⟩ : IOPort) ∈
          (Ports.many theType length ios).list := fun io mem => List.mem_map.mpr ⟨io, mem, rfl⟩
      have all := foldlM_addManyConstraint ios before (by simpa using nodup)
        (fun io mem => kept.named _ (each io mem))
        (fun io mem constrained => (separate _ (each io mem) constrained).setPorts) isPlain
      rw [Node.setPorts_setPorts, List.nil_append] at all
      exact all

/-- A node without its IOs and arguments. -/
def Node.bare (n : Node) : Node := ⟨n.nodeID, n.kind, .each [], .each [], []⟩

theorem Node.setPorts_bare :
    (n.bare.setPorts true n.inputs).setPorts false n.outputs = n.withoutArgs := rfl

theorem args_yamlNode (n : Node) : (yamlNode n).args.getD [] = n.schedArgs := by
  cases empty : n.schedArgs with
  | nil => simp [yamlNode, empty]
  | cons arg schedArgs => simp [yamlNode, empty]

/-- The arguments are read as they were. -/
theorem processArguments_eq (args : n.schedArgs.foldl addArg [] = n.schedArgs) :
    processArguments n.withoutArgs (yamlNode n).args = n := by
  rw [processArguments, args_yamlNode]
  change { n with schedArgs := n.schedArgs.foldl addArg [] } = n
  rw [args]

/-- A node with inputs only. -/
theorem Node.setPorts_inputs (outputs : n.outputs = .each []) :
    n.bare.setPorts true n.inputs = n.withoutArgs := by
  rcases n with ⟨nodeID, kind, inputs, _, schedArgs⟩
  cases outputs
  rfl

/-- A node with outputs only. -/
theorem Node.setPorts_outputs (inputs : n.inputs = .each []) :
    n.bare.setPorts false n.outputs = n.withoutArgs := by
  rcases n with ⟨nodeID, kind, _, outputs, schedArgs⟩
  cases inputs
  rfl

theorem Node.Kept.separate_bare {counters : NodeIDs} (kept : n.Kept counters) :
    (∀ io ∈ n.inputs.list, io.bufferConstraint ≠ none → n.bare.Separate true io.name) ∧
      (∀ io ∈ n.outputs.list, io.bufferConstraint ≠ none → n.bare.Separate false io.name) ∧
      ∀ io ∈ n.outputs.list, io.bufferConstraint ≠ none →
        (n.bare.setPorts true n.inputs).Separate false io.name := by
  refine ⟨fun _ _ _ => ?_, fun _ _ _ _ other mem => ?_,
    fun io mem constrained _ other otherMem => ?_⟩
  · rintro ⟨⟩
  · cases mem
  · exact kept.separate io mem constrained other otherMem

variable {counters : NodeIDs}

/-- Both sides of a class node are read as they were. -/
theorem makeNode_cpp {typeName : String} {identified : Bool} {inputs outputs : PortsDesc}
    (kept : n.Kept counters) (isCpp : n.kind = .cpp typeName identified)
    (types : ∀ t ∈ n.types, dataType cstruct t.ctype = .ok t)
    (inputsDesc : createPorts n.inputs = some inputs)
    (outputsDesc : createPorts n.outputs = some outputs) :
    makeNode cstruct counters (yamlNode n) identified inputs outputs (.kind typeName) =
      .ok (n.withoutArgs, counters) := by
  rcases kept.separate_bare with ⟨separateInputs, -, separateOutputs⟩
  have isBare : newClassNode (yamlNode n) typeName identified = n.bare := by
    rw [Node.bare, isCpp]
    rfl
  have first : processPorts cstruct true n.bare inputs = .ok (n.bare.setPorts true n.inputs) :=
    processPorts_eq inputsDesc rfl kept.inputs separateInputs
      fun t mem => types t (List.mem_append_left _ mem)
  have second : processPorts cstruct false (n.bare.setPorts true n.inputs) outputs =
      .ok ((n.bare.setPorts true n.inputs).setPorts false n.outputs) :=
    processPorts_eq outputsDesc rfl kept.outputs separateOutputs
      fun t mem => types t (List.mem_append_right _ mem)
  simp only [makeNode, isBare, first, second, bind, Except.bind, pure, Except.pure]
  rfl

/-- A class node with inputs or outputs only is read as it was. -/
theorem makeEnd_cpp {typeName : String} {identified : Bool} {ios : List IOPort}
    (kept : n.Kept counters) (isCpp : n.kind = .cpp typeName identified)
    (types : ∀ t ∈ n.types, dataType cstruct t.ctype = .ok t)
    (side : n.ports isInput = .each ios) (other : n.ports (!isInput) = .each []) :
    makeEnd cstruct (yamlNode n) identified isInput (.each (ios.map createYAMLPort)) =
      .ok n.withoutArgs := by
  rcases kept.separate_bare with ⟨separateInputs, separateOutputs, -⟩
  have isBare : newClassNode (yamlNode n) typeName identified = n.bare := by
    rw [Node.bare, isCpp]
    rfl
  have kind : (yamlNode n).kind = some (.kind typeName) := by
    simp [yamlNode, isCpp]
  simp only [makeEnd, kind, isBare]
  cases isInput with
  | true =>
      have inputs : n.inputs = .each ios := side
      have isKept := kept.inputs
      rw [← Node.setPorts_inputs other, inputs]
      rw [inputs] at isKept separateInputs
      refine processEach_eq rfl isKept separateInputs fun t mem => types t ?_
      rw [Node.types, inputs]
      exact List.mem_append_left _ mem
  | false =>
      have outputs : n.outputs = .each ios := side
      have isKept := kept.outputs
      rw [← Node.setPorts_outputs other, outputs]
      rw [outputs] at isKept separateOutputs
      refine processEach_eq rfl isKept separateOutputs fun t mem => types t ?_
      rw [Node.types, outputs]
      exact List.mem_append_right _ mem

/-- A function is made again. -/
theorem makeNode_function {identified : Bool} {inputs outputs : PortsDesc}
    (kept : n.Kept counters) (notCpp : ∀ typeName identified, n.kind ≠ .cpp typeName identified)
    (types : ∀ t ∈ n.types, dataType cstruct t.ctype = .ok t)
    (inputsDesc : createPorts n.inputs = some inputs)
    (outputsDesc : createPorts n.outputs = some outputs) :
    ∃ kind, (yamlNode n).kind = some kind ∧
      makeNode cstruct counters (yamlNode n) identified inputs outputs kind =
        .ok (n.withoutArgs, n.used counters) := by
  have kindKept := kept.kind
  unfold Node.KindKept at kindKept
  cases kind : n.kind with
  | cpp typeName identified => exact absurd kind (notCpp typeName identified)
  | unary funcname argsDesc =>
      rw [kind] at kindKept
      rcases kindKept with ⟨theType, length, eq⟩
      have isInputs : n.inputs = (newUnary counters funcname theType length).inputs := by
        rw [← eq]
        rfl
      rw [isInputs] at inputsDesc
      cases inputsDesc
      have isType := types theType (by simp [Node.types, isInputs, Ports.types, newUnary])
      have name : (yamlNode n).kind = some (.unary funcname) := by
        simp [yamlNode, Node.nodeName, kind]
      have used : n.used counters = counters.used funcname := by
        simp [Node.used, kind]
      refine ⟨_, name, ?_⟩
      rw [eq, used]
      simp only [makeNode, firstInput, List.map_cons, createYAMLPort, isType, bind,
        Except.bind, pure, Except.pure]
  | binary funcname argsDesc =>
      rw [kind] at kindKept
      rcases kindKept with ⟨theType, length, eq⟩
      have isInputs : n.inputs = (newBinary counters funcname theType length).inputs := by
        rw [← eq]
        rfl
      rw [isInputs] at inputsDesc
      cases inputsDesc
      have isType := types theType (by simp [Node.types, isInputs, Ports.types, newBinary])
      have name : (yamlNode n).kind = some (.binary funcname) := by
        simp [yamlNode, Node.nodeName, kind]
      have used : n.used counters = counters.used funcname := by
        simp [Node.used, kind]
      refine ⟨_, name, ?_⟩
      rw [eq, used]
      simp only [makeNode, firstInput, List.map_cons, createYAMLPort, isType, bind,
        Except.bind, pure, Except.pure]
  | genericFunction funcname args =>
      rw [kind] at kindKept
      rcases kindKept with ⟨nodeID, sameName, ⟨io, ios, isInputs⟩, io', ios', isOutputs⟩
      rcases kept.separate_bare with ⟨separateInputs, -, separateOutputs⟩
      have inputsKept := kept.inputs
      have outputsKept := kept.outputs
      rw [isInputs] at inputsKept inputsDesc separateInputs separateOutputs
      rw [isOutputs] at outputsKept outputsDesc separateOutputs
      cases inputsDesc
      cases outputsDesc
      have isBare : newFunction counters funcname (.genericFunction funcname args) = n.bare := by
        rw [Node.bare, kind, nodeID]
        rfl
      have name : (yamlNode n).kind = some (.cFunction funcname args) := by
        simp [yamlNode, Node.nodeName, kind]
      have first : processEach cstruct true n.bare (.each ((io :: ios).map createYAMLPort)) =
          .ok (n.bare.setPorts true (.each (io :: ios))) := by
        refine processEach_eq rfl inputsKept separateInputs fun t mem => types t ?_
        rw [Node.types, isInputs]
        exact List.mem_append_left _ mem
      have second : processEach cstruct false (n.bare.setPorts true (.each (io :: ios)))
          (.each ((io' :: ios').map createYAMLPort)) =
            .ok ((n.bare.setPorts true (.each (io :: ios))).setPorts false
              (.each (io' :: ios'))) := by
        refine processEach_eq rfl outputsKept separateOutputs fun t mem => types t ?_
        rw [Node.types, isOutputs]
        exact List.mem_append_right _ mem
      have used : n.used counters = counters.used funcname := by
        simp [Node.used, kind]
      refine ⟨_, name, ?_⟩
      rw [used, ← Node.setPorts_bare, isInputs, isOutputs]
      simp only [makeNode, sameName, isBare, first, second, bind, Except.bind, pure,
        Except.pure]

/-- A node with inputs and outputs is made again. -/
theorem makeNode_eq {inputs outputs : PortsDesc} (kept : n.Kept counters)
    (types : ∀ t ∈ n.types, dataType cstruct t.ctype = .ok t)
    (inputsDesc : createPorts n.inputs = some inputs)
    (outputsDesc : createPorts n.outputs = some outputs) :
    ∃ kind, (yamlNode n).kind = some kind ∧
      makeNode cstruct counters (yamlNode n) n.identified inputs outputs kind =
        .ok (n.withoutArgs, n.used counters) := by
  cases kind : n.kind with
  | cpp typeName identified =>
      have same : n.identified = identified ∧ n.used counters = counters := by
        simp [Node.identified, Node.used, kind]
      rw [same.1, same.2]
      refine ⟨.kind typeName, by simp [yamlNode, kind], ?_⟩
      exact makeNode_cpp kept kind types inputsDesc outputsDesc
  | unary _ _ => exact makeNode_function kept (by simp [kind]) types inputsDesc outputsDesc
  | binary _ _ => exact makeNode_function kept (by simp [kind]) types inputsDesc outputsDesc
  | genericFunction _ _ =>
      exact makeNode_function kept (by simp [kind]) types inputsDesc outputsDesc

theorem eq_each_nil_of_createPorts (none : createPorts ports = none) : ports = .each [] := by
  cases ports with
  | each ios =>
      cases ios with
      | nil => rfl
      | cons io ios => cases none
  | many theType length ios => cases none

/-- When one side of a node is empty, it is a class node and the other side is a list. -/
theorem Node.Kept.of_createPorts_none (kept : n.Kept counters)
    (none : createPorts (n.ports isInput) = none) :
    ∃ typeName identified io ios, n.kind = .cpp typeName identified ∧
      n.ports isInput = .each [] ∧ n.ports (!isInput) = .each (io :: ios) := by
  have empty : n.ports isInput = .each [] := eq_each_nil_of_createPorts none
  have kindKept := kept.kind
  unfold Node.KindKept at kindKept
  cases kind : n.kind with
  | cpp typeName identified =>
      rw [kind] at kindKept
      refine ⟨typeName, identified, ?_⟩
      cases isInput with
      | true =>
          rcases kindKept.1 empty with ⟨io, ios, outputs⟩
          exact ⟨io, ios, rfl, empty, outputs⟩
      | false =>
          rcases kindKept.2 empty with ⟨io, ios, inputs⟩
          exact ⟨io, ios, rfl, empty, inputs⟩
  | unary funcname argsDesc =>
      rw [kind] at kindKept
      rcases kindKept with ⟨theType, length, eq⟩
      have side : n.ports isInput = (newUnary counters funcname theType length).ports isInput := by
        rw [← eq]
        rfl
      cases isInput <;> cases empty.symm.trans side
  | binary funcname argsDesc =>
      rw [kind] at kindKept
      rcases kindKept with ⟨theType, length, eq⟩
      have side : n.ports isInput = (newBinary counters funcname theType length).ports isInput := by
        rw [← eq]
        rfl
      cases isInput <;> cases empty.symm.trans side
  | genericFunction funcname args =>
      rw [kind] at kindKept
      rcases kindKept with ⟨-, -, ⟨io, ios, inputs⟩, io', ios', outputs⟩
      cases isInput with
      | true => cases empty.symm.trans inputs
      | false => cases empty.symm.trans outputs

/-- A node is read as it was. -/
theorem importNode_yamlNode (kept : n.Kept counters)
    (types : ∀ t ∈ n.types, dataType cstruct t.ctype = .ok t)
    (nodes : String → Option Imported) :
    importNode cstruct ⟨nodes, counters⟩ (yamlNode n) =
      .ok (ImportState.set ⟨nodes, counters⟩ n.nodeID (.node n) (n.used counters)) := by
  have arguments := processArguments_eq kept.args
  have identified : (yamlNode n).identified = some n.identified := rfl
  have inputsDesc : (yamlNode n).inputs = createPorts n.inputs := rfl
  have outputsDesc : (yamlNode n).outputs = createPorts n.outputs := rfl
  have isNode : (yamlNode n).node = n.nodeID := rfl
  cases inputs : createPorts n.inputs with
  | some inputsOf =>
      cases outputs : createPorts n.outputs with
      | some outputsOf =>
          rcases makeNode_eq kept types inputs outputs with ⟨kind, isKind, made⟩
          simp only [importNode, identified, key, inputsDesc, outputsDesc, inputs, outputs, isKind,
            made, arguments, isNode, bind, Except.bind, pure, Except.pure]
      | none =>
          have empty : createPorts (n.ports false) = none := outputs
          rcases kept.of_createPorts_none empty with
            ⟨typeName, isIdentified, io, ios, kind, noOutputs, side⟩
          have made : makeEnd cstruct (yamlNode n) isIdentified true
              (.each ((io :: ios).map createYAMLPort)) = .ok n.withoutArgs :=
            makeEnd_cpp kept kind types side noOutputs
          have isInputs : n.inputs = .each (io :: ios) := side
          have same : n.identified = isIdentified ∧ n.used counters = counters := by
            simp [Node.identified, Node.used, kind]
          rw [isInputs] at inputs
          cases inputs
          simp only [importNode, identified, same.1, same.2, key, inputsDesc, outputsDesc, isInputs,
            createPorts_each, outputs, made, arguments, isNode, bind, Except.bind, pure,
            Except.pure]
  | none =>
      have empty : createPorts (n.ports true) = none := inputs
      rcases kept.of_createPorts_none empty with
        ⟨typeName, isIdentified, io, ios, kind, noInputs, side⟩
      have made : makeEnd cstruct (yamlNode n) isIdentified false
          (.each ((io :: ios).map createYAMLPort)) = .ok n.withoutArgs :=
        makeEnd_cpp kept kind types side noInputs
      have isOutputs : n.outputs = .each (io :: ios) := side
      have same : n.identified = isIdentified ∧ n.used counters = counters := by
        simp [Node.identified, Node.used, kind]
      simp only [importNode, identified, same.1, same.2, key, inputsDesc, outputsDesc, isOutputs,
        createPorts_each, inputs, made, arguments, isNode, bind, Except.bind, pure, Except.pure]

/-! ### All the nodes -/

/-- Nodes which are read as they were, one after the other. -/
def NodesKept : NodeIDs → List Node → Prop
  | _, [] => True
  | counters, n :: rest => n.Kept counters ∧ NodesKept (n.used counters) rest

/-- The nodes are read as they were, each under its identifier. -/
theorem foldlM_importNode {l : List Node} (kept : NodesKept counters l)
    (types : ∀ n ∈ l, ∀ t ∈ n.types, dataType cstruct t.ctype = .ok t)
    (nodup : (l.map Node.nodeID).Nodup) (nodes : String → Option Imported) :
    ∃ s, (l.map yamlNode).foldlM (importNode cstruct) ⟨nodes, counters⟩ = .ok s ∧
      (∀ n ∈ l, s.nodes n.nodeID = some (.node n)) ∧
      ∀ name, name ∉ l.map Node.nodeID → s.nodes name = nodes name := by
  induction l generalizing nodes counters with
  | nil => exact ⟨⟨nodes, counters⟩, rfl, by simp, fun _ _ => rfl⟩
  | cons n l ih =>
      rcases kept with ⟨first, rest⟩
      rcases List.nodup_cons.mp nodup with ⟨new, later⟩
      have read := importNode_yamlNode first (types n (by simp)) nodes
      rcases ih rest (fun other mem => types other (List.mem_cons_of_mem _ mem)) later
        (Function.update nodes n.nodeID (some (.node n))) with ⟨s, all, found, unchanged⟩
      refine ⟨s, ?_, ?_, ?_⟩
      · rw [List.map_cons, List.foldlM_cons, read]
        exact all
      · intro other mem
        rcases List.mem_cons.mp mem with rfl | mem
        · rw [unchanged _ new, Function.update_self]
        · exact found other mem
      · intro name notIn
        rw [List.map_cons, List.mem_cons, not_or] at notIn
        rw [unchanged name notIn.2, Function.update_of_ne notIn.1]

end Node

end CmsisStream.Yaml
