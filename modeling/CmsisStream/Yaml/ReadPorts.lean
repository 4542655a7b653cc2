import CmsisStream.Dataflow.Loop
import CmsisStream.Yaml.NodeRoundTrip

/-!
# The IOs which are read

Whatever its description, a node which is read has different names for its inputs and for its
outputs, and types which are found by their names.  A constraint is set for the IO which is found
first, so that no output with a constraint is named as an input.
-/

namespace CmsisStream.Yaml

open Dataflow (foldlM_invariant)
open Scheduler (NbSamples)

/-! ### The IOs of one side -/

theorem nodup_addNew {α : Type} [DecidableEq α] {l : List α} (nodup : l.Nodup) (x : α) :
    (addNew l x).Nodup := by
  unfold addNew
  split_ifs with mem
  · exact nodup
  · refine List.nodup_append.mpr ⟨nodup, List.nodup_singleton x, ?_⟩
    rintro y yMem _ (isLast : _ ∈ [x]) rfl
    exact mem (List.mem_singleton.mp isLast ▸ yMem)

theorem nodup_foldl_addNew {α : Type} [DecidableEq α] {l new : List α} (nodup : l.Nodup) :
    (new.foldl addNew l).Nodup := by
  induction new generalizing l with
  | nil => exact nodup
  | cons x new ih => exact ih (nodup_addNew nodup x)

theorem map_name_setPort (io : IOPort) (ios : List IOPort) :
    (setPort io ios).map IOPort.name = addNew (ios.map IOPort.name) io.name := by
  have isName : (ios.any fun other => other.name = io.name) = true ↔
      io.name ∈ ios.map IOPort.name := by
    simp
  unfold setPort addNew
  by_cases mem : io.name ∈ ios.map IOPort.name
  · rw [if_pos (isName.mpr mem), if_pos mem, List.map_map]
    apply List.map_congr_left
    intro other _
    simp only [Function.comp_apply]
    split_ifs with same
    · exact same.symm
    · rfl
  · rw [if_neg (mt isName.mp mem), if_neg mem]
    simp

theorem mem_setPort {io other : IOPort} {ios : List IOPort} (mem : other ∈ setPort io ios) :
    other = io ∨ other ∈ ios := by
  unfold setPort at mem
  split_ifs at mem
  · rcases List.mem_map.mp mem with ⟨old, oldMem, rfl⟩
    split_ifs
    · exact .inl rfl
    · exact .inr oldMem
  · rcases List.mem_append.mp mem with old | new
    · exact .inr old
    · exact .inl (List.mem_singleton.mp new)

/-- IOs with different names, whose types are found by their names. -/
structure Ports.Made (cstruct : Structs) (ports : Ports) : Prop where
  nodup : (ports.list.map IOPort.name).Nodup
  types : ∀ t ∈ ports.types, dataType cstruct t.ctype = .ok t

namespace Ports

variable {cstruct : Structs} {ports : Ports} {io : IOPort} {name : String}
  {constraint : BufferConstraint}

theorem Made.empty : (Ports.each []).Made cstruct := by
  refine ⟨List.nodup_nil, ?_⟩
  rintro t ⟨⟩

theorem Made.add (made : ports.Made cstruct)
    (isType : dataType cstruct io.theType.ctype = .ok io.theType) :
    (ports.add io).Made cstruct := by
  cases ports with
  | each ios =>
      refine ⟨?_, ?_⟩
      · change ((setPort io ios).map IOPort.name).Nodup
        rw [map_name_setPort]
        exact nodup_addNew made.nodup io.name
      · intro t mem
        rcases List.mem_map.mp mem with ⟨other, otherMem, rfl⟩
        rcases mem_setPort otherMem with rfl | old
        · exact isType
        · exact made.types _ (List.mem_map_of_mem old)
  | many theType length ios => exact made

theorem mem_list_add {other : IOPort} (mem : other ∈ (ports.add io).list) :
    other = io ∨ other ∈ ports.list := by
  cases ports with
  | each ios => exact mem_setPort mem
  | many theType length ios => exact .inr mem

/-- A constraint changes neither the names nor the types. -/
@[simp]
theorem names_setConstraint (ports : Ports) (name : String) (constraint : BufferConstraint) :
    (ports.setConstraint name constraint).list.map IOPort.name = ports.list.map IOPort.name := by
  cases ports with
  | each ios =>
      simp only [setConstraint, list, List.map_map]
      apply List.map_congr_left
      intro other _
      simp only [Function.comp_apply]
      split_ifs <;> rfl
  | many theType length ios =>
      simp only [setConstraint, list, List.map_map]
      apply List.map_congr_left
      intro other _
      simp only [Function.comp_apply]
      split_ifs <;> rfl

@[simp]
theorem types_setConstraint (ports : Ports) (name : String) (constraint : BufferConstraint) :
    (ports.setConstraint name constraint).types = ports.types := by
  cases ports with
  | each ios =>
      simp only [setConstraint, types, List.map_map]
      apply List.map_congr_left
      intro other _
      simp only [Function.comp_apply]
      split_ifs <;> rfl
  | many theType length ios => rfl

theorem Made.setConstraint (made : ports.Made cstruct) :
    (ports.setConstraint name constraint).Made cstruct := by
  refine ⟨?_, ?_⟩
  · rw [names_setConstraint]
    exact made.nodup
  · rw [types_setConstraint]
    exact made.types

/-- An IO which has a constraint has just been given it, or had one. -/
theorem constrained_setConstraint (mem : io ∈ (ports.setConstraint name constraint).list)
    (constrained : io.bufferConstraint ≠ none) :
    io.name = name ∨ ∃ old ∈ ports.list, old.name = io.name ∧ old.bufferConstraint ≠ none := by
  cases ports with
  | each ios =>
      rcases List.mem_map.mp mem with ⟨old, oldMem, rfl⟩
      split_ifs at constrained ⊢ with isName
      · exact .inl isName
      · exact .inr ⟨old, oldMem, rfl, constrained⟩
  | many theType length ios =>
      rcases List.mem_map.mp mem with ⟨item, itemMem, rfl⟩
      rcases List.mem_map.mp itemMem with ⟨old, oldMem, rfl⟩
      split_ifs at constrained ⊢ with isName
      · exact .inl isName
      · exact .inr ⟨_, List.mem_map_of_mem oldMem, rfl, constrained⟩

/-- The IOs before the constraints are set. -/
theorem Made.many {theType : SampleType} {length : NbSamples} {names : List String}
    (isType : dataType cstruct theType.ctype = .ok theType) :
    (Ports.many theType length (manyNames names)).Made cstruct := by
  refine ⟨?_, ?_⟩
  · have isNames : (Ports.many theType length (manyNames names)).list.map IOPort.name =
        names.foldl addNew [] := by
      simp [list, manyNames, Function.comp_def]
    rw [isNames]
    exact nodup_foldl_addNew List.nodup_nil
  · intro t mem
    cases List.mem_singleton.mp mem
    exact isType

end Ports

/-! ### A node to which IOs are added -/

/-- An item of a list of IOs which is read: a name has no key as a part, a constraint has a name. -/
def ManyDesc.Readable : ManyDesc → Prop
  | plain text => isIn "name" text = false ∧ isIn "buffer-constraint" text = false
  | described _ constraint => constraint.name ≠ none

namespace Node

/-- What the IOs do not change. -/
def withoutPorts (n : Node) : Node := { n with inputs := .each [], outputs := .each [] }

/-- A node which is read: an output which has a constraint is not named as an input, because the
constraint would have been set for the input. -/
structure Made (cstruct : Structs) (n : Node) : Prop where
  inputs : n.inputs.Made cstruct
  outputs : n.outputs.Made cstruct
  separate : ∀ io ∈ n.outputs.list, io.bufferConstraint ≠ none →
    ∀ other ∈ n.inputs.list, other.name ≠ io.name

variable {cstruct : Structs} {n next : Node} {isInput : Bool}

/-- While the inputs are added there is no output. -/
structure Grows (cstruct : Structs) (isInput : Bool) (n next : Node) : Prop where
  made : next.Made cstruct
  noOutput : isInput = true → next.outputs = .each []
  withoutPorts : next.withoutPorts = n.withoutPorts

/-- The IO with a name is an input of the node, or it is an output which is not named as an
input. -/
theorem setBufferConstraint_cases {name : String} {constraint : BufferConstraint}
    (ok : n.setBufferConstraint name constraint = .ok next) :
    next = { n with inputs := n.inputs.setConstraint name constraint } ∧
        (∃ io ∈ n.inputs.list, io.name = name) ∨
      next = { n with outputs := n.outputs.setConstraint name constraint } ∧
        (∀ io ∈ n.inputs.list, io.name ≠ name) ∧ ∃ io ∈ n.outputs.list, io.name = name := by
  have found : ∀ {side : Bool}, (n.findPort side name).isSome = true ↔
      ∃ io ∈ n.ios side, io.name = name := by
    intro side
    rw [findPort, List.find?_isSome]
    simp
  unfold setBufferConstraint at ok
  by_cases isInput : (n.findPort true name).isSome = true
  · rw [getItem, if_pos isInput] at ok
    exact .inl ⟨(Except.ok.inj ok).symm, found.mp isInput⟩
  · by_cases isOutput : (n.findPort false name).isSome = true
    · rw [getItem, if_neg isInput, if_pos isOutput] at ok
      refine .inr ⟨(Except.ok.inj ok).symm, fun io mem same => ?_, found.mp isOutput⟩
      exact isInput (found.mpr ⟨io, mem, same⟩)
    · rw [getItem, if_neg isInput, if_neg isOutput] at ok
      cases ok

theorem Made.setBufferConstraint {name : String} {constraint : BufferConstraint}
    (made : n.Made cstruct) (noOutput : isInput = true → n.outputs = .each [])
    (ok : n.setBufferConstraint name constraint = .ok next) : n.Grows cstruct isInput next := by
  rcases setBufferConstraint_cases ok with ⟨rfl, -⟩ | ⟨rfl, notInput, isOutput⟩
  · refine ⟨⟨made.inputs.setConstraint, made.outputs, ?_⟩, noOutput, rfl⟩
    intro io mem constrained other otherMem same
    have otherName := List.mem_map_of_mem (f := IOPort.name) otherMem
    rw [Ports.names_setConstraint] at otherName
    rcases List.mem_map.mp otherName with ⟨old, oldMem, isName⟩
    exact made.separate io mem constrained old oldMem (isName.trans same)
  · refine ⟨⟨made.inputs, made.outputs.setConstraint, ?_⟩, fun isInputs => ?_, rfl⟩
    · intro io mem constrained other otherMem same
      rcases Ports.constrained_setConstraint mem constrained with
        isName | ⟨old, oldMem, isName, had⟩
      · exact notInput other otherMem (same.trans isName)
      · exact made.separate old oldMem had other otherMem (same.trans isName.symm)
    · rcases isOutput with ⟨io, mem, -⟩
      rw [noOutput isInputs] at mem
      cases mem

theorem Made.addPort (made : n.Made cstruct) (io : IOPort)
    (noOutput : isInput = true → n.outputs = .each []) (noConstraint : io.bufferConstraint = none)
    (isType : dataType cstruct io.theType.ctype = .ok io.theType) :
    n.Grows cstruct isInput (n.addPort isInput io) := by
  cases isInput with
  | true =>
      have outputs := noOutput rfl
      refine ⟨⟨made.inputs.add isType, made.outputs, ?_⟩, fun _ => outputs, rfl⟩
      intro other mem
      change other ∈ n.outputs.list at mem
      rw [outputs] at mem
      cases mem
  | false =>
      refine ⟨⟨made.inputs, made.outputs.add isType, ?_⟩, by simp, rfl⟩
      intro other mem constrained
      rcases Ports.mem_list_add mem with rfl | old
      · exact absurd noConstraint constrained
      · exact made.separate other old constrained

theorem Grows.trans {last : Node} (first : n.Grows cstruct isInput next)
    (second : next.Grows cstruct isInput last) : n.Grows cstruct isInput last :=
  ⟨second.made, second.noOutput, second.withoutPorts.trans first.withoutPorts⟩

theorem Made.addBufferConstraint {desc : Option BufferDesc} {name : String}
    (made : n.Made cstruct) (noOutput : isInput = true → n.outputs = .each [])
    (ok : addBufferConstraint desc n name = .ok next) :
    n.Grows cstruct isInput next ∧ ∀ c, desc = some c → c.name ≠ none := by
  cases desc with
  | none =>
      cases ok
      exact ⟨⟨made, noOutput, rfl⟩, by simp⟩
  | some c =>
      simp only [Yaml.addBufferConstraint, bind, Except.bind] at ok
      cases isName : c.name with
      | none =>
          rw [isName] at ok
          cases ok
      | some constraintName =>
          simp only [isName, key] at ok
          refine ⟨made.setBufferConstraint noOutput ok, ?_⟩
          rintro _ ⟨rfl⟩
          simp [isName]

/-- An item adds an IO whose constraint has a name. -/
theorem Made.processItem {desc : IODesc} (consistent : cstruct.Consistent) (made : n.Made cstruct)
    (noOutput : isInput = true → n.outputs = .each [])
    (ok : processItem cstruct isInput n desc = .ok next) :
    n.Grows cstruct isInput next ∧ ∀ c, desc.bufferConstraint = some c → c.name ≠ none := by
  simp only [Yaml.processItem, bind, Except.bind] at ok
  cases isType : dataType cstruct desc.type with
  | error error =>
      rw [isType] at ok
      cases ok
  | ok theType =>
      rw [isType] at ok
      have added := made.addPort ⟨desc.name, theType, desc.samples, none⟩ noOutput rfl
        (consistent.dataType isType)
      rcases added.made.addBufferConstraint added.noOutput ok with ⟨grows, named⟩
      exact ⟨added.trans grows, named⟩

theorem Made.addManyConstraint {desc : ManyDesc} (made : n.Made cstruct)
    (noOutput : isInput = true → n.outputs = .each [])
    (ok : addManyConstraint n desc = .ok next) :
    n.Grows cstruct isInput next ∧ desc.Readable := by
  simp only [Yaml.addManyConstraint, bind, Except.bind] at ok
  cases desc with
  | plain text =>
      simp only [getManyIOName] at ok
      split_ifs at ok with isName isConstraint
      · cases ok
        exact ⟨⟨made, noOutput, rfl⟩, by simpa using isName, by simpa using isConstraint⟩
  | described name constraint =>
      rcases made.addBufferConstraint noOutput ok with ⟨grows, named⟩
      exact ⟨grows, named constraint rfl⟩

/-- The items which are read one after the other add IOs, and each of them can be read. -/
theorem foldlM_grows {α : Type} {f : Node → α → Except ImportError Node} {P : α → Prop} {l : List α}
    (step : ∀ before x next, before.Made cstruct → (isInput = true → before.outputs = .each []) →
      f before x = .ok next → before.Grows cstruct isInput next ∧ P x)
    (made : n.Made cstruct) (noOutput : isInput = true → n.outputs = .each [])
    (ok : l.foldlM f n = .ok next) : n.Grows cstruct isInput next ∧ ∀ x ∈ l, P x := by
  have preserved : ∀ done x before next, (n.Grows cstruct isInput before ∧ ∀ x ∈ done, P x) →
      f before x = .ok next → n.Grows cstruct isInput next ∧ ∀ y ∈ done ++ [x], P y := by
    rintro done x before next ⟨grows, all⟩ ok
    rcases step before x next grows.made grows.noOutput ok with ⟨grows', holds⟩
    refine ⟨grows.trans grows', fun y mem => ?_⟩
    rcases List.mem_append.mp mem with old | new
    · exact all y old
    · cases List.mem_singleton.mp new
      exact holds
  exact foldlM_invariant (P := fun done next => n.Grows cstruct isInput next ∧ ∀ x ∈ done, P x)
    preserved ⟨⟨made, noOutput, rfl⟩, by simp⟩ ok

end Node

/-! ### The IOs of a description -/

/-- A constraint whose name has been written has one. -/
theorem ConstraintKept.of_written {constraint : Option BufferConstraint}
    (named : ∀ c, constraint.map mkBufferConstraint = some c → c.name ≠ none) :
    ConstraintKept constraint := by
  rintro c rfl
  have written := named (mkBufferConstraint c) rfl
  rcases Option.ne_none_iff_exists'.mp written with ⟨name, isName⟩
  rcases Option.filter_eq_some_iff.mp isName with ⟨isName, notEmpty⟩
  exact ⟨name, isName, by simpa using notEmpty⟩

section Side

variable {cstruct : Structs} {n next : Node} {isInput : Bool} {ports : Ports} {desc : PortsDesc}

/-- The IOs of one side which are read from a list. -/
theorem processEach_made (consistent : cstruct.Consistent) (made : n.Made cstruct)
    (noOutput : isInput = true → n.outputs = .each []) (created : createPorts ports = some desc)
    (ok : processEach cstruct isInput n desc = .ok next) :
    n.Grows cstruct isInput next ∧ ((ports.list.map IOPort.name).Nodup → ports.Kept) ∧
      ∃ io ios, ports = .each (io :: ios) := by
  cases ports with
  | many theType length ios =>
      cases created
      cases ok
  | each ios =>
      cases ios with
      | nil => cases created
      | cons io ios =>
          cases created
          have step : ∀ (before : Node) (desc : IODesc) (next : Node), before.Made cstruct →
              (isInput = true → before.outputs = .each []) →
              processItem cstruct isInput before desc = .ok next →
              before.Grows cstruct isInput next ∧
                ∀ c, desc.bufferConstraint = some c → c.name ≠ none :=
            fun _ _ _ made noOutput ok => made.processItem consistent noOutput ok
          rcases Node.foldlM_grows step made noOutput ok with ⟨grows, named⟩
          refine ⟨grows, fun nodup => ⟨nodup, fun io mem => ?_, by simp⟩, io, ios, rfl⟩
          exact .of_written (named (createYAMLPort io) (List.mem_map_of_mem mem))

/-- The IOs of one side which have one type and one length. -/
theorem processMany_made {theType : SampleType} {length : NbSamples}
    {ios : List (String × Option BufferConstraint)} (consistent : cstruct.Consistent)
    (made : n.Made cstruct) (noOutput : isInput = true → n.outputs = .each [])
    (ok : processList cstruct isInput n length theType.ctype (ios.map createManyItem) = .ok next) :
    n.Grows cstruct isInput next ∧ (((Ports.many theType length ios).list.map IOPort.name).Nodup →
      (Ports.many theType length ios).Kept) := by
  simp only [processList, bind, Except.bind] at ok
  cases isType : dataType cstruct theType.ctype with
  | error error =>
      rw [isType] at ok
      cases ok
  | ok readType =>
      rw [isType] at ok
      simp only at ok
      split at ok
      · cases ok
      rename_i names _
      have start : n.Grows cstruct isInput
          (n.setPorts isInput (.many readType length (manyNames names))) := by
        have isMade : (Ports.many readType length (manyNames names)).Made cstruct :=
          .many (consistent.dataType isType)
        have noConstraint : ∀ io ∈ (Ports.many readType length (manyNames names)).list,
            io.bufferConstraint = none := by
          intro io mem
          rcases List.mem_map.mp mem with ⟨item, itemMem, rfl⟩
          rcases List.mem_map.mp itemMem with ⟨name, -, rfl⟩
          rfl
        cases isInput with
        | true =>
            refine ⟨⟨isMade, made.outputs, ?_⟩, noOutput, rfl⟩
            intro io mem
            change io ∈ n.outputs.list at mem
            rw [noOutput rfl] at mem
            cases mem
        | false =>
            refine ⟨⟨made.inputs, isMade, ?_⟩, by simp, rfl⟩
            intro io mem constrained
            exact absurd (noConstraint io mem) constrained
      have step : ∀ (before : Node) (desc : ManyDesc) (next : Node), before.Made cstruct →
          (isInput = true → before.outputs = .each []) →
          addManyConstraint before desc = .ok next →
          before.Grows cstruct isInput next ∧ desc.Readable :=
        fun _ _ _ made noOutput ok => made.addManyConstraint noOutput ok
      rcases Node.foldlM_grows step start.made start.noOutput ok with ⟨grows, readable⟩
      refine ⟨start.trans grows, fun nodup => ⟨nodup, fun io mem => ?_, ?_⟩⟩
      · rcases List.mem_map.mp mem with ⟨⟨name, constraint⟩, itemMem, rfl⟩
        have isReadable := readable _ (List.mem_map_of_mem itemMem)
        refine .of_written fun c isConstraint => ?_
        cases constraint with
        | none => cases isConstraint
        | some constraint =>
            cases isConstraint
            exact isReadable
      · rintro _ _ _ ⟨rfl, rfl, rfl⟩ ⟨name, constraint⟩ mem rfl
        exact readable _ (List.mem_map_of_mem mem)

theorem processPorts_made (consistent : cstruct.Consistent) (made : n.Made cstruct)
    (noOutput : isInput = true → n.outputs = .each []) (created : createPorts ports = some desc)
    (ok : processPorts cstruct isInput n desc = .ok next) :
    n.Grows cstruct isInput next ∧ ((ports.list.map IOPort.name).Nodup → ports.Kept) := by
  cases ports with
  | each ios =>
      cases ios with
      | nil => cases created
      | cons io ios =>
          have isEach : desc = .each ((io :: ios).map createYAMLPort) :=
            (Option.some.inj created).symm
          have ok' : processEach cstruct isInput n desc = .ok next := by
            rw [isEach] at ok ⊢
            exact ok
          rcases processEach_made consistent made noOutput created ok' with ⟨grows, kept, -⟩
          exact ⟨grows, kept⟩
  | many theType length ios =>
      cases created
      exact processMany_made consistent made noOutput ok

end Side

end CmsisStream.Yaml
