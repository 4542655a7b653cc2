import CmsisStream.Yaml.ReadPorts

/-!
# The nodes which are read

A node which comes back from its description is one of those which are kept: its IOs and its
arguments are read, and it is a class node with IOs, or a function which is made again.
-/

namespace CmsisStream.Yaml

open Scheduler (NbSamples)

section Node

variable {cstruct : Structs} {n m : Node} {counters : NodeIDs} {isInput : Bool}

/-- A node which is made from its own description is kept. -/
theorem Node.Kept.of_made (made : m.Made cstruct) (noArgs : m.schedArgs = [])
    (same : processArguments m (yamlNode n).args = n)
    (inputs : (n.inputs.list.map IOPort.name).Nodup → n.inputs.Kept)
    (outputs : (n.outputs.list.map IOPort.name).Nodup → n.outputs.Kept)
    (kind : n.KindKept counters) :
    n.Kept counters ∧ ∀ t ∈ n.types, dataType cstruct t.ctype = .ok t := by
  have sameInputs : (processArguments m (yamlNode n).args).inputs = n.inputs :=
    congrArg Node.inputs same
  have sameOutputs : (processArguments m (yamlNode n).args).outputs = n.outputs :=
    congrArg Node.outputs same
  change m.inputs = n.inputs at sameInputs
  change m.outputs = n.outputs at sameOutputs
  have args : ((yamlNode n).args.getD []).foldl addArg m.schedArgs = n.schedArgs :=
    congrArg Node.schedArgs same
  rw [args_yamlNode, noArgs] at args
  rcases made with ⟨inputsMade, outputsMade, separate⟩
  rw [sameInputs, sameOutputs] at separate
  rw [sameInputs] at inputsMade
  rw [sameOutputs] at outputsMade
  refine ⟨⟨inputs inputsMade.nodup, outputs outputsMade.nodup, separate, args, kind⟩, ?_⟩
  intro t mem
  rcases List.mem_append.mp mem with isInput | isOutput
  · exact inputsMade.types t isInput
  · exact outputsMade.types t isOutput

theorem Node.Made.fresh {nodeID : String} {kind : NodeKind} :
    (⟨nodeID, kind, .each [], .each [], []⟩ : Node).Made cstruct := by
  refine ⟨.empty, .empty, ?_⟩
  rintro io ⟨⟩

/-- A class node with IOs on one side. -/
theorem makeEnd_made {identified : Bool} {desc : PortsDesc} (consistent : cstruct.Consistent)
    (created : createPorts (n.ports isInput) = some desc)
    (empty : createPorts (n.ports (!isInput)) = none)
    (ok : makeEnd cstruct (yamlNode n) identified isInput desc = .ok m)
    (same : processArguments m (yamlNode n).args = n) :
    n.Kept counters ∧ (∀ t ∈ n.types, dataType cstruct t.ctype = .ok t) ∧
      n.used counters = counters := by
  cases kind : n.kind with
  | cpp typeName isIdentified =>
      have isKind : (yamlNode n).kind = some (.kind typeName) := by simp [yamlNode, kind]
      simp only [makeEnd, isKind] at ok
      rcases processEach_made consistent .fresh (fun _ => rfl) created ok with
        ⟨grows, kept, io, ios, side⟩
      have noArgs : m.schedArgs = [] := congrArg Node.schedArgs grows.withoutPorts
      have other : n.ports (!isInput) = .each [] := eq_each_nil_of_createPorts empty
      have otherKept : (Ports.each []).Kept := .of_unconstrained (by simp) List.nodup_nil
      have used : n.used counters = counters := by simp [Node.used, kind]
      have isKept : n.Kept counters ∧ ∀ t ∈ n.types, dataType cstruct t.ctype = .ok t := by
        cases isInput with
        | true =>
            have inputs : n.inputs = .each (io :: ios) := side
            have outputs : n.outputs = .each [] := other
            refine Node.Kept.of_made grows.made noArgs same kept (fun _ => outputs ▸ otherKept) ?_
            rw [Node.KindKept, kind]
            exact ⟨fun none => absurd (inputs.symm.trans none) (by simp),
              fun _ => ⟨io, ios, inputs⟩⟩
        | false =>
            have outputs : n.outputs = .each (io :: ios) := side
            have inputs : n.inputs = .each [] := other
            refine Node.Kept.of_made grows.made noArgs same (fun _ => inputs ▸ otherKept) kept ?_
            rw [Node.KindKept, kind]
            exact ⟨fun _ => ⟨io, ios, outputs⟩,
              fun none => absurd (outputs.symm.trans none) (by simp)⟩
      exact ⟨isKept.1, isKept.2, used⟩
  | unary funcname args => simp [makeEnd, yamlNode, kind] at ok
  | binary funcname args => simp [makeEnd, yamlNode, kind] at ok
  | genericFunction funcname args => simp [makeEnd, yamlNode, kind] at ok

/-- A function which is made from its first input. -/
theorem firstInput_made {ports : PortsDesc} {make : SampleType → NbSamples → Node}
    {counters later : NodeIDs} (consistent : cstruct.Consistent)
    (ok : (do
      let (theType, length) ← firstInput cstruct ports
      pure (make theType length, counters)) = .ok (m, later)) :
    ∃ theType length, dataType cstruct theType.ctype = .ok theType ∧ m = make theType length ∧
      later = counters := by
  cases first : firstInput cstruct ports with
  | error error =>
      rw [first] at ok
      cases ok
  | ok typeAndLength =>
      rcases typeAndLength with ⟨theType, length⟩
      rw [first] at ok
      rcases Prod.mk.inj (Except.ok.inj ok) with ⟨isMade, isLater⟩
      refine ⟨theType, length, ?_, isMade.symm, isLater.symm⟩
      cases ports with
      | each ios =>
          cases ios with
          | nil => cases first
          | cons io ios =>
              simp only [firstInput, bind, Except.bind] at first
              cases isType : dataType cstruct io.type with
              | error error =>
                  rw [isType] at first
                  cases first
              | ok readType =>
                  rw [isType] at first
                  cases first
                  exact consistent.dataType isType
      | many samples type descriptions => cases first

/-- A function whose IOs have no constraint. -/
theorem Node.Kept.of_function {inputs outputs : List IOPort} (isInputs : m.inputs = .each inputs)
    (isOutputs : m.outputs = .each outputs)
    (noConstraint : ∀ io ∈ inputs ++ outputs, io.bufferConstraint = none)
    (nodup : (inputs.map IOPort.name).Nodup ∧ (outputs.map IOPort.name).Nodup)
    (types : ∀ io ∈ inputs ++ outputs, dataType cstruct io.theType.ctype = .ok io.theType)
    (noArgs : m.schedArgs = []) (same : processArguments m (yamlNode n).args = n)
    (kind : n.KindKept counters) :
    n.Kept counters ∧ ∀ t ∈ n.types, dataType cstruct t.ctype = .ok t := by
  have sameInputs : (processArguments m (yamlNode n).args).inputs = n.inputs :=
    congrArg Node.inputs same
  have sameOutputs : (processArguments m (yamlNode n).args).outputs = n.outputs :=
    congrArg Node.outputs same
  have nInputs : n.inputs = .each inputs := sameInputs.symm.trans isInputs
  have nOutputs : n.outputs = .each outputs := sameOutputs.symm.trans isOutputs
  have made : m.Made cstruct := by
    refine ⟨?_, ?_, ?_⟩
    · rw [isInputs]
      refine ⟨nodup.1, fun t mem => ?_⟩
      rcases List.mem_map.mp mem with ⟨io, ioMem, rfl⟩
      exact types io (List.mem_append_left _ ioMem)
    · rw [isOutputs]
      refine ⟨nodup.2, fun t mem => ?_⟩
      rcases List.mem_map.mp mem with ⟨io, ioMem, rfl⟩
      exact types io (List.mem_append_right _ ioMem)
    · rw [isOutputs]
      intro io mem constrained
      exact absurd (noConstraint io (List.mem_append_right _ mem)) constrained
  refine Node.Kept.of_made made noArgs same ?_ ?_ kind
  · rw [nInputs]
    exact .of_unconstrained fun io mem => noConstraint io (List.mem_append_left _ mem)
  · rw [nOutputs]
    exact .of_unconstrained fun io mem => noConstraint io (List.mem_append_right _ mem)

/-- A class node with IOs on both sides. -/
theorem makeNode_cpp_made {inputs outputs : PortsDesc} {later : NodeIDs} {identified : Bool}
    {typeName : String} {isIdentified : Bool} (consistent : cstruct.Consistent)
    (kind : n.kind = .cpp typeName isIdentified) (inputsDesc : createPorts n.inputs = some inputs)
    (outputsDesc : createPorts n.outputs = some outputs)
    (ok : makeNode cstruct counters (yamlNode n) identified inputs outputs (.kind typeName) =
      .ok (m, later))
    (same : processArguments m (yamlNode n).args = n) :
    n.Kept counters ∧ (∀ t ∈ n.types, dataType cstruct t.ctype = .ok t) ∧
      n.used counters = later := by
  simp only [makeNode, bind, Except.bind] at ok
  cases first : processPorts cstruct true (newClassNode (yamlNode n) typeName identified)
      inputs with
  | error error =>
      rw [first] at ok
      cases ok
  | ok withInputs =>
      rw [first] at ok
      simp only at ok
      cases second : processPorts cstruct false withInputs outputs with
      | error error =>
          rw [second] at ok
          cases ok
      | ok made =>
          rw [second] at ok
          cases ok
          rcases processPorts_made consistent .fresh (fun _ => rfl) inputsDesc first with
            ⟨grows, inputsKept⟩
          rcases processPorts_made consistent grows.made
            (fun isTrue => absurd isTrue Bool.false_ne_true) outputsDesc second with
            ⟨grows', outputsKept⟩
          have noArgs : m.schedArgs = [] :=
            congrArg Node.schedArgs (grows'.withoutPorts.trans grows.withoutPorts)
          have kindKept : n.KindKept counters := by
            rw [Node.KindKept, kind]
            refine ⟨fun none => ?_, fun none => ?_⟩
            · rw [none] at inputsDesc
              cases inputsDesc
            · rw [none] at outputsDesc
              cases outputsDesc
          have isKept := Node.Kept.of_made grows'.made noArgs same inputsKept outputsKept kindKept
          exact ⟨isKept.1, isKept.2, by simp [Node.used, kind]⟩

/-- A function with its own IOs, whose name is the one in its description. -/
theorem makeNode_cFunction_made {inputs outputs : PortsDesc} {later : NodeIDs} {identified : Bool}
    {funcname : String} {args : List Arg} (consistent : cstruct.Consistent)
    (kind : n.kind = .genericFunction funcname args)
    (inputsDesc : createPorts n.inputs = some inputs)
    (outputsDesc : createPorts n.outputs = some outputs)
    (ok : makeNode cstruct counters (yamlNode n) identified inputs outputs
      (.cFunction funcname args) = .ok (m, later))
    (same : processArguments m (yamlNode n).args = n) :
    n.Kept counters ∧ (∀ t ∈ n.types, dataType cstruct t.ctype = .ok t) ∧
      n.used counters = later := by
  have sameKind : (processArguments m (yamlNode n).args).kind = n.kind := congrArg Node.kind same
  have sameID : (processArguments m (yamlNode n).args).nodeID = n.nodeID :=
    congrArg Node.nodeID same
  change m.kind = n.kind at sameKind
  change m.nodeID = n.nodeID at sameID
  simp only [makeNode, bind, Except.bind] at ok
  cases first : processEach cstruct true (newFunction counters (functionName funcname args)
      (.genericFunction (functionName funcname args) args)) inputs with
  | error error =>
      rw [first] at ok
      cases ok
  | ok withInputs =>
      rw [first] at ok
      simp only at ok
      cases second : processEach cstruct false withInputs outputs with
      | error error =>
          rw [second] at ok
          cases ok
      | ok made =>
          rw [second] at ok
          cases ok
          rcases processEach_made consistent .fresh (fun _ => rfl) inputsDesc first with
            ⟨grows, inputsKept, hasInputs⟩
          rcases processEach_made consistent grows.made
            (fun isTrue => absurd isTrue Bool.false_ne_true) outputsDesc second with
            ⟨grows', outputsKept, hasOutputs⟩
          have withoutPorts := grows'.withoutPorts.trans grows.withoutPorts
          have noArgs : m.schedArgs = [] := congrArg Node.schedArgs withoutPorts
          have isNodeID : m.nodeID = functionName funcname args ++
              toString (counters (functionName funcname args)) :=
            congrArg Node.nodeID withoutPorts
          have isFuncname : m.kind = .genericFunction (functionName funcname args) args :=
            congrArg Node.kind withoutPorts
          have sameName : functionName funcname args = funcname := by
            rw [sameKind, kind] at isFuncname
            injection isFuncname with eq
            exact eq.symm
          have kindKept : n.KindKept counters := by
            rw [Node.KindKept, kind]
            refine ⟨?_, sameName, hasInputs, hasOutputs⟩
            rw [← sameID, isNodeID, sameName]
          have isKept := Node.Kept.of_made grows'.made noArgs same inputsKept outputsKept kindKept
          exact ⟨isKept.1, isKept.2, by simp [Node.used, kind, sameName]⟩

theorem Node.withoutArgs_of_made (noArgs : m.schedArgs = [])
    (same : processArguments m (yamlNode n).args = n) : n.withoutArgs = m := by
  have eq := congrArg Node.withoutArgs same
  rcases m with ⟨nodeID, kind, inputs, outputs, schedArgs⟩
  cases noArgs
  exact eq.symm

/-- A node with inputs and outputs. -/
theorem makeNode_made {inputs outputs : PortsDesc} {kindDesc : KindDesc} {later : NodeIDs}
    (consistent : cstruct.Consistent) (inputsDesc : createPorts n.inputs = some inputs)
    (outputsDesc : createPorts n.outputs = some outputs) {identified : Bool}
    (isKind : (yamlNode n).kind = some kindDesc)
    (ok : makeNode cstruct counters (yamlNode n) identified inputs outputs kindDesc =
      .ok (m, later))
    (same : processArguments m (yamlNode n).args = n) :
    n.Kept counters ∧ (∀ t ∈ n.types, dataType cstruct t.ctype = .ok t) ∧
      n.used counters = later := by
  rw [yamlNode, Node.nodeName] at isKind
  cases kind : n.kind with
  | cpp typeName isIdentified =>
      rw [kind] at isKind
      cases isKind
      exact makeNode_cpp_made consistent kind inputsDesc outputsDesc ok same
  | unary funcname args =>
      rw [kind] at isKind
      cases isKind
      rcases firstInput_made consistent ok with ⟨theType, length, isType, rfl, rfl⟩
      have kindKept : n.KindKept counters := by
        rw [Node.KindKept, kind]
        exact ⟨theType, length, Node.withoutArgs_of_made rfl same⟩
      have types : ∀ io ∈ [(⟨"i", theType, length, none⟩ : IOPort)] ++
          [⟨"o", theType, length, none⟩], dataType cstruct io.theType.ctype = .ok io.theType := by
        simpa using isType
      have isKept := Node.Kept.of_function rfl rfl (by simp) (by simp) types rfl same kindKept
      exact ⟨isKept.1, isKept.2, by simp [Node.used, kind]⟩
  | binary funcname args =>
      rw [kind] at isKind
      cases isKind
      rcases firstInput_made consistent ok with ⟨theType, length, isType, rfl, rfl⟩
      have kindKept : n.KindKept counters := by
        rw [Node.KindKept, kind]
        exact ⟨theType, length, Node.withoutArgs_of_made rfl same⟩
      have types : ∀ io ∈ [(⟨"ia", theType, length, none⟩ : IOPort),
          ⟨"ib", theType, length, none⟩] ++ [⟨"o", theType, length, none⟩],
          dataType cstruct io.theType.ctype = .ok io.theType := by
        simpa using isType
      have isKept := Node.Kept.of_function rfl rfl (by simp) (by simp) types rfl same kindKept
      exact ⟨isKept.1, isKept.2, by simp [Node.used, kind]⟩
  | genericFunction funcname args =>
      rw [kind] at isKind
      cases isKind
      exact makeNode_cFunction_made consistent kind inputsDesc outputsDesc ok same

@[simp]
theorem ImportState.nodes_set (s : ImportState) (name : String) (imported : Imported)
    (counters : NodeIDs) : (s.set name imported counters).nodes name = some imported :=
  Function.update_self ..

theorem kind_yamlNode (n : Node) : (yamlNode n).kind ≠ none := by
  cases kind : n.kind <;> simp [yamlNode, kind]

/-- A node which is read from its own description, and has come back, is kept. -/
theorem Node.Kept.of_importNode {s s' : ImportState} (consistent : cstruct.Consistent)
    (ok : importNode cstruct s (yamlNode n) = .ok s')
    (found : s'.nodes n.nodeID = some (.node n)) :
    n.Kept s.counters ∧ (∀ t ∈ n.types, dataType cstruct t.ctype = .ok t) ∧
      s'.counters = n.used s.counters := by
  have isSame : ∀ {m : Node} {counters : NodeIDs},
      s' = s.set n.nodeID (.node (processArguments m (yamlNode n).args)) counters →
        processArguments m (yamlNode n).args = n ∧ s'.counters = counters := by
    rintro m counters rfl
    rw [ImportState.nodes_set] at found
    injection found with found
    injection found with found
    exact ⟨found, rfl⟩
  have identified : (yamlNode n).identified = some n.identified := rfl
  have inputsDesc : (yamlNode n).inputs = createPorts n.inputs := rfl
  have outputsDesc : (yamlNode n).outputs = createPorts n.outputs := rfl
  have isEnd : ∀ (isInput : Bool) {desc : PortsDesc},
      createPorts (n.ports isInput) = some desc → createPorts (n.ports (!isInput)) = none →
      (do
        let m ← makeEnd cstruct (yamlNode n) n.identified isInput desc
        pure (s.set n.nodeID (.node (processArguments m (yamlNode n).args)) s.counters)) =
          .ok s' →
      n.Kept s.counters ∧ (∀ t ∈ n.types, dataType cstruct t.ctype = .ok t) ∧
        s'.counters = n.used s.counters := by
    intro isInput desc created empty ok
    cases made : makeEnd cstruct (yamlNode n) n.identified isInput desc with
    | error error =>
        rw [made] at ok
        cases ok
    | ok m =>
        rw [made] at ok
        rcases isSame (Except.ok.inj ok).symm with ⟨same, counters⟩
        rcases makeEnd_made consistent created empty made same with ⟨kept, types, used⟩
        exact ⟨kept, types, counters.trans used.symm⟩
  cases inputs : createPorts n.inputs with
  | none =>
      cases outputs : createPorts n.outputs with
      | none =>
          simp only [importNode, identified, key, inputsDesc, outputsDesc, inputs, outputs, bind,
            Except.bind, pure, Except.pure] at ok
          cases ok
          have isConstant : some (Imported.constant ⟨0, n.nodeID⟩) = some (Imported.node n) :=
            (s.nodes_set n.nodeID _ s.counters).symm.trans found
          cases isConstant
      | some outputsOf =>
          simp only [importNode, identified, key, inputsDesc, outputsDesc, inputs, outputs] at ok
          exact isEnd false outputs inputs ok
  | some inputsOf =>
      cases outputs : createPorts n.outputs with
      | none =>
          simp only [importNode, identified, key, inputsDesc, outputsDesc, inputs, outputs] at ok
          exact isEnd true inputs outputs ok
      | some outputsOf =>
          simp only [importNode, identified, key, inputsDesc, outputsDesc, inputs, outputs, bind,
            Except.bind] at ok
          rcases Option.ne_none_iff_exists'.mp (kind_yamlNode n) with ⟨kindDesc, isKind⟩
          rw [isKind] at ok
          simp only at ok
          cases made : makeNode cstruct s.counters (yamlNode n) n.identified inputsOf outputsOf
              kindDesc with
          | error error =>
              rw [made] at ok
              cases ok
          | ok result =>
              rcases result with ⟨m, later⟩
              rw [made] at ok
              rcases isSame (Except.ok.inj ok).symm with ⟨same, counters⟩
              rcases makeNode_made consistent inputs outputs isKind made same with
                ⟨kept, types, used⟩
              exact ⟨kept, types, counters.trans used.symm⟩

/-! ### All the nodes -/

/-- An item changes the node of its name only. -/
theorem importNode_nodes {s s' : ImportState} {desc : NodeDesc}
    (ok : importNode cstruct s desc = .ok s') {name : String} (other : name ≠ desc.node) :
    s'.nodes name = s.nodes name := by
  have isSet : ∀ {imported : Imported} {counters : NodeIDs},
      s' = s.set desc.node imported counters → s'.nodes name = s.nodes name := by
    rintro imported counters rfl
    exact Function.update_of_ne other ..
  simp only [importNode, bind, Except.bind, pure, Except.pure] at ok
  split at ok
  · cases ok
  split at ok
  · split at ok
    · split at ok
      · cases ok
      · exact isSet (Except.ok.inj ok).symm
    · simp only [addArguments, bind, Except.bind, pure, Except.pure] at ok
      split at ok
      · cases ok
      split at ok
      · exact isSet (Except.ok.inj ok).symm
      · split_ifs at ok
        cases ok
        rfl
  · split at ok
    · cases ok
    · exact isSet (Except.ok.inj ok).symm
  · split at ok
    · cases ok
    · exact isSet (Except.ok.inj ok).symm
  · exact isSet (Except.ok.inj ok).symm

theorem foldlM_importNode_nodes {s last : ImportState} {l : List Node}
    (ok : (l.map yamlNode).foldlM (importNode cstruct) s = .ok last) {name : String}
    (new : name ∉ l.map Node.nodeID) : last.nodes name = s.nodes name := by
  induction l generalizing s with
  | nil =>
      cases ok
      rfl
  | cons n l ih =>
      rw [List.map_cons, List.mem_cons, not_or] at new
      rw [List.map_cons, List.foldlM_cons] at ok
      cases first : importNode cstruct s (yamlNode n) with
      | error error =>
          rw [first] at ok
          cases ok
      | ok next =>
          rw [first] at ok
          rw [ih ok new.2, importNode_nodes first new.1]

/-- Nodes which have come back, each under its identifier, are kept. -/
theorem NodesKept.of_import {s last : ImportState} {l : List Node} (consistent : cstruct.Consistent)
    (ok : (l.map yamlNode).foldlM (importNode cstruct) s = .ok last)
    (nodup : (l.map Node.nodeID).Nodup) (found : ∀ n ∈ l, last.nodes n.nodeID = some (.node n)) :
    NodesKept s.counters l ∧ ∀ n ∈ l, ∀ t ∈ n.types, dataType cstruct t.ctype = .ok t := by
  induction l generalizing s with
  | nil => exact ⟨trivial, by simp⟩
  | cons n l ih =>
      rcases List.nodup_cons.mp nodup with ⟨new, later⟩
      rw [List.map_cons, List.foldlM_cons] at ok
      cases first : importNode cstruct s (yamlNode n) with
      | error error =>
          rw [first] at ok
          cases ok
      | ok next =>
          rw [first] at ok
          have isFound : next.nodes n.nodeID = some (.node n) := by
            rw [← foldlM_importNode_nodes ok new]
            exact found n (by simp)
          rcases Node.Kept.of_importNode consistent first isFound with ⟨kept, types, counters⟩
          rcases ih ok later fun other mem => found other (List.mem_cons_of_mem _ mem) with
            ⟨restKept, restTypes⟩
          rw [counters] at restKept
          refine ⟨⟨kept, restKept⟩, fun other mem => ?_⟩
          rcases List.mem_cons.mp mem with rfl | mem
          · exact types
          · exact restTypes other mem

end Node

end CmsisStream.Yaml
