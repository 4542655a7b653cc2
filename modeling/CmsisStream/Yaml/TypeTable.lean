import CmsisStream.Yaml.Import

/-!
# The table of types

The types of the IOs are written by their names, and `custom-types` describes those which are not
scalar.  A type which refers to another one comes after it, so that the table can be read from the
first entry to the last one.
-/

namespace CmsisStream.Yaml

/-- The types in the table for a type, after the ones they refer to. -/
def SampleType.described : SampleType → List SampleType
  | .cType _ => []
  | .cStructType name bytes => [.cStructType name bytes]
  | .cCustomType name bytes => [.cCustomType name bytes]
  | .sharedType refType shared => refType.described ++ [.sharedType refType shared]

/-- The entry of a type in the table. -/
def SampleType.desc : SampleType → TypeDesc
  | .cType t => ⟨t.ctype, none, none, none⟩
  | .cStructType name bytes | .cCustomType name bytes => ⟨name, some bytes, none, none⟩
  | .sharedType refType shared => ⟨"Shared", none, some refType.ctype, some shared⟩

/-- The table for a list of types. -/
def typeTable (types : List SampleType) : List (String × TypeDesc) :=
  types.map fun t => (t.ctype, t.desc)

/-- The types which are read from the table of a list of types. -/
def readTypes (types : List SampleType) : Structs := types.map fun t => (t.ctype, t)

/-- Types which are read as they were: a structure is not named as a scalar type (unless it is only
shared) or as `Shared`, what is shared is a structure or is shared too, and different types have
different names. -/
structure TypesKept (types : List SampleType) : Prop where
  scalar : ∀ name bytes, .cStructType name bytes ∈ types → ∀ t : CType, t.ctype ≠ name
  struct : ∀ name bytes, .cStructType name bytes ∈ types.flatMap SampleType.described →
    name ≠ "Shared"
  notCustom : ∀ name bytes, .cCustomType name bytes ∉ types.flatMap SampleType.described
  shared : ∀ t shared, .sharedType (.cType t) shared ∉ types.flatMap SampleType.described
  names : ∀ t ∈ types.flatMap SampleType.described,
    ∀ other ∈ types.flatMap SampleType.described, t.ctype = other.ctype → t = other

/-- Types which come after the types they refer to. -/
inductive Ordered : List SampleType → Prop
  | nil : Ordered []
  | concat {types : List SampleType} {t : SampleType} (ordered : Ordered types)
      (refers : ∀ refType shared, t = .sharedType refType shared → refType ∈ types) :
      Ordered (types ++ [t])

section Write

variable {types : List SampleType}

theorem mem_addNew {α : Type} [DecidableEq α] {l : List α} {x y : α} :
    y ∈ addNew l x ↔ y ∈ l ∨ y = x := by
  unfold addNew
  split_ifs with mem
  · refine ⟨Or.inl, ?_⟩
    rintro (old | rfl)
    · exact old
    · exact mem
  · simp

theorem mem_foldl_addNew {α : Type} [DecidableEq α] {l new : List α} {y : α} :
    y ∈ new.foldl addNew l ↔ y ∈ l ∨ y ∈ new := by
  induction new generalizing l with
  | nil => simp
  | cons x new ih =>
      simp only [List.foldl_cons, List.mem_cons, ih, mem_addNew]
      exact or_assoc

/-- A type is written after the types it refers to. -/
theorem createYAMLType_eq (table : List (String × TypeDesc)) (t : SampleType) :
    createYAMLType table t =
      t.described.foldl (fun table t => addType t.ctype t.desc table) table := by
  induction t generalizing table with
  | cType t => rfl
  | cStructType name bytes => rfl
  | cCustomType name bytes => rfl
  | sharedType refType shared ih =>
      simp only [createYAMLType, SampleType.described, List.foldl_append, ih]
      rfl

theorem foldl_createYAMLType (table : List (String × TypeDesc)) (types : List SampleType) :
    types.foldl createYAMLType table = (types.flatMap SampleType.described).foldl
      (fun table t => addType t.ctype t.desc table) table := by
  induction types generalizing table with
  | nil => rfl
  | cons t types ih =>
      simp only [List.foldl_cons, List.flatMap_cons, List.foldl_append, ih, createYAMLType_eq]

/-- When different types have different names, the table has each type once. -/
theorem foldl_addType {l new : List SampleType}
    (names : ∀ t ∈ l ++ new, ∀ other ∈ l ++ new, t.ctype = other.ctype → t = other) :
    new.foldl (fun table t => addType t.ctype t.desc table) (typeTable l) =
      typeTable (new.foldl addNew l) := by
  induction new generalizing l with
  | nil => rfl
  | cons t new ih =>
      have isKey : t.ctype ∈ (typeTable l).map Prod.fst ↔ t ∈ l := by
        simp only [typeTable, List.map_map, List.mem_map, Function.comp_apply]
        refine ⟨?_, fun mem => ⟨t, mem, rfl⟩⟩
        rintro ⟨other, mem, same⟩
        have eq := names other (by simp [mem]) t (by simp) same
        exact eq ▸ mem
      have step : addType t.ctype t.desc (typeTable l) = typeTable (addNew l t) := by
        simp only [addType, addNew, isKey]
        split_ifs
        · rfl
        · simp [typeTable]
      simp only [List.foldl_cons, step]
      apply ih
      intro s mem other mem' same
      simp only [List.mem_append, mem_addNew] at mem mem'
      apply names s _ other _ same
      all_goals simp only [List.mem_append, List.mem_cons]
      · tauto
      · tauto

theorem Ordered.addNew {t : SampleType} (ordered : Ordered types)
    (refers : ∀ refType shared, t = .sharedType refType shared → refType ∈ types) :
    Ordered (addNew types t) := by
  unfold Yaml.addNew
  split_ifs
  · exact ordered
  · exact ordered.concat refers

/-- The types of the table come after the ones they refer to. -/
theorem Ordered.described {t : SampleType} (ordered : Ordered types)
    (shared : ∀ scalar isShared, .sharedType (.cType scalar) isShared ∉ t.described) :
    Ordered (t.described.foldl Yaml.addNew types) ∧
      ((∀ scalar, t ≠ .cType scalar) → t ∈ t.described.foldl Yaml.addNew types) := by
  induction t generalizing types with
  | cType scalar => exact ⟨ordered, fun notScalar => absurd rfl (notScalar scalar)⟩
  | cStructType name bytes =>
      exact ⟨ordered.addNew (by simp), fun _ => mem_addNew.mpr (Or.inr rfl)⟩
  | cCustomType name bytes =>
      exact ⟨ordered.addNew (by simp), fun _ => mem_addNew.mpr (Or.inr rfl)⟩
  | sharedType refType isShared ih =>
      have before := ih ordered fun scalar other mem =>
        shared scalar other (List.mem_append_left _ mem)
      have notScalar : ∀ scalar, refType ≠ .cType scalar := by
        rintro scalar rfl
        exact shared scalar isShared (by simp [SampleType.described])
      simp only [SampleType.described, List.foldl_append, List.foldl_cons, List.foldl_nil]
      refine ⟨before.1.addNew ?_, fun _ => mem_addNew.mpr (Or.inr rfl)⟩
      rintro _ _ ⟨rfl, rfl⟩
      exact before.2 notScalar

theorem Ordered.flatMap {l new : List SampleType} (ordered : Ordered l)
    (shared : ∀ scalar isShared,
      .sharedType (.cType scalar) isShared ∉ new.flatMap SampleType.described) :
    Ordered ((new.flatMap SampleType.described).foldl Yaml.addNew l) := by
  induction new generalizing l with
  | nil => exact ordered
  | cons t new ih =>
      rw [List.flatMap_cons, List.foldl_append]
      apply ih
      · exact (ordered.described fun scalar isShared mem =>
          shared scalar isShared (by simp [mem])).1
      · intro scalar isShared mem
        apply shared scalar isShared
        rw [List.flatMap_cons]
        exact List.mem_append_right _ mem

end Write

section Read

variable {types : List SampleType} {t : SampleType}

/-- A type is found by its name. -/
theorem lookup_readTypes (names : ∀ other ∈ types, other.ctype = t.ctype → other = t)
    (mem : t ∈ types) : (readTypes types).lookup t.ctype = some t := by
  induction types with
  | nil => cases mem
  | cons first types ih =>
      simp only [readTypes, List.map_cons, List.lookup_cons]
      by_cases same : first.ctype = t.ctype
      · have eq := names first (by simp) same
        simp [eq]
      · have notFirst : t ≠ first := fun eq => same (eq ▸ rfl)
        have other : (t.ctype == first.ctype) = false := by simpa using Ne.symm same
        rw [other]
        exact ih (fun s later => names s (List.mem_cons_of_mem _ later))
          ((List.mem_cons.mp mem).resolve_left notFirst)

theorem scalars_find (t : CType) : scalars.find? (fun other => other.ctype = t.ctype) = some t := by
  cases t <;> decide

/-- The name of a shared type is not the one of a scalar type. -/
theorem ctype_ne_shared (t : CType) (refType : SampleType) (shared : Bool) :
    t.ctype ≠ (SampleType.sharedType refType shared).ctype := by
  intro same
  have first := congrArg (fun s : String => s.toList.head?) same
  cases t <;> simp [CType.ctype, SampleType.ctype] at first

theorem dataType_scalar (cstruct : Structs) (t : CType) :
    dataType cstruct t.ctype = .ok (.cType t) := by
  simp only [dataType, scalars_find]

theorem dataType_lookup {cstruct : Structs} {s : String} (notScalar : ∀ t : CType, t.ctype ≠ s)
    (found : cstruct.lookup s = some t) : dataType cstruct s = .ok t := by
  have none : scalars.find? (fun t => t.ctype = s) = none := by
    rw [List.find?_eq_none]
    intro t _
    simpa using notScalar t
  simp only [dataType, none, found]

/-- No scalar type is in the table. -/
theorem ne_cType_of_mem_described (mem : t ∈ types.flatMap SampleType.described)
    (scalar : CType) : t ≠ .cType scalar := by
  rintro rfl
  rcases List.mem_flatMap.mp mem with ⟨other, -, described⟩
  induction other with
  | cType _ => simp [SampleType.described] at described
  | cStructType _ _ => simp [SampleType.described] at described
  | cCustomType _ _ => simp [SampleType.described] at described
  | sharedType refType shared ih =>
      simp only [SampleType.described, List.mem_append, List.mem_singleton, reduceCtorEq,
        or_false] at described
      exact ih described

variable {l : List SampleType}

/-- An entry is read after the entries of the types it refers to. -/
theorem importType_desc (kept : TypesKept types) (mem : t ∈ types.flatMap SampleType.described)
    (within : ∀ other ∈ l, other ∈ types.flatMap SampleType.described)
    (refers : ∀ refType shared, t = .sharedType refType shared → refType ∈ l) :
    importType (readTypes l) (t.ctype, t.desc) = .ok (readTypes (l ++ [t])) := by
  cases t with
  | cType scalar => exact absurd rfl (ne_cType_of_mem_described mem scalar)
  | cStructType name bytes =>
      simp [importType, SampleType.desc, kept.struct name bytes mem, key, readTypes,
        SampleType.ctype, bind, Except.bind, pure, Except.pure]
  | cCustomType name bytes => exact absurd mem (kept.notCustom name bytes)
  | sharedType refType shared =>
      have found : (readTypes l).lookup refType.ctype = some refType := by
        have before := refers refType shared rfl
        exact lookup_readTypes (fun other otherMem same =>
          kept.names other (within other otherMem) refType (within refType before) same) before
      simp only [importType, SampleType.desc, key, found, if_true, bind, Except.bind, pure,
        Except.pure]
      simp [readTypes]

/-- The table is read. -/
theorem Ordered.import (kept : TypesKept types) (ordered : Ordered l)
    (within : ∀ other ∈ l, other ∈ types.flatMap SampleType.described) :
    (typeTable l).foldlM importType [] = .ok (readTypes l) := by
  induction ordered with
  | nil => rfl
  | @concat before t ordered refers ih =>
      have first := ih fun other mem => within other (List.mem_append_left _ mem)
      have last := importType_desc kept (within t (by simp))
        (fun other mem => within other (List.mem_append_left _ mem)) refers
      rw [typeTable, List.map_append, List.foldlM_append]
      change ((typeTable before).foldlM importType [] >>= _) = _
      rw [first]
      change importType (readTypes before) (t.ctype, t.desc) >>= _ = _
      rw [last]
      rfl

/-- The types come back from the table and from their names. -/
theorem TypesKept.read (kept : TypesKept types) :
    ∃ cstruct, (types.foldl createYAMLType []).foldlM importType [] = .ok cstruct ∧
      ∀ t ∈ types, dataType cstruct t.ctype = .ok t := by
  let table := (types.flatMap SampleType.described).foldl Yaml.addNew []
  have inTable : ∀ t, t ∈ table ↔ t ∈ types.flatMap SampleType.described := by
    intro t
    simp [table, mem_foldl_addNew]
  have written : types.foldl createYAMLType [] = typeTable table := by
    rw [foldl_createYAMLType]
    refine foldl_addType (l := []) ?_
    simpa using kept.names
  have ordered : Ordered table := Ordered.nil.flatMap kept.shared
  refine ⟨readTypes table, ?_, fun t mem => ?_⟩
  · rw [written]
    exact ordered.import kept fun t mem => (inTable t).mp mem
  · have isFound : t ∈ types.flatMap SampleType.described →
        (readTypes table).lookup t.ctype = some t := by
      intro described
      exact lookup_readTypes (fun other otherMem same =>
        kept.names other ((inTable other).mp otherMem) t described same) ((inTable t).mpr described)
    cases t with
    | cType scalar => exact dataType_scalar _ scalar
    | cStructType name bytes =>
        have described : .cStructType name bytes ∈ types.flatMap SampleType.described :=
          List.mem_flatMap.mpr ⟨_, mem, by simp [SampleType.described]⟩
        exact dataType_lookup (kept.scalar name bytes mem) (isFound described)
    | cCustomType name bytes =>
        have described : .cCustomType name bytes ∈ types.flatMap SampleType.described :=
          List.mem_flatMap.mpr ⟨_, mem, by simp [SampleType.described]⟩
        exact absurd described (kept.notCustom name bytes)
    | sharedType refType shared =>
        have described : .sharedType refType shared ∈ types.flatMap SampleType.described :=
          List.mem_flatMap.mpr ⟨_, mem, by simp [SampleType.described]⟩
        exact dataType_lookup (fun t => ctype_ne_shared t refType shared) (isFound described)

end Read

section Converse

/-- What holds of the types which have been read: each has its name, is no scalar and no custom
type, and comes after the type it refers to. -/
structure Structs.Consistent (cstruct : Structs) : Prop where
  name : ∀ entry ∈ cstruct, entry.1 = entry.2.ctype
  notScalar : ∀ entry ∈ cstruct, ∀ t, entry.2 ≠ .cType t
  notCustom : ∀ entry ∈ cstruct, ∀ name bytes, entry.2 ≠ .cCustomType name bytes
  struct : ∀ entry ∈ cstruct, ∀ name bytes, entry.2 = .cStructType name bytes → name ≠ "Shared"
  refers : ∀ entry ∈ cstruct, ∀ refType shared, entry.2 = .sharedType refType shared →
    cstruct.lookup refType.ctype = some refType

variable {cstruct next : Structs} {t : SampleType}

theorem mem_of_lookup {name : String} (found : cstruct.lookup name = some t) :
    (name, t) ∈ cstruct := by
  rcases List.lookup_eq_some_iff.mp found with ⟨before, after, rfl, -⟩
  simp

theorem Structs.Consistent.concat (consistent : cstruct.Consistent)
    (notScalar : ∀ s, t ≠ .cType s) (notCustom : ∀ name bytes, t ≠ .cCustomType name bytes)
    (struct : ∀ name bytes, t = .cStructType name bytes → name ≠ "Shared")
    (refers : ∀ refType shared, t = .sharedType refType shared →
      cstruct.lookup refType.ctype = some refType) :
    Structs.Consistent (cstruct ++ [(t.ctype, t)]) := by
  have still : ∀ {name : String} {refType : SampleType}, cstruct.lookup name = some refType →
      (cstruct ++ [(t.ctype, t)]).lookup name = some refType := by
    intro name refType found
    rw [List.lookup_append, found]
    rfl
  refine ⟨?_, ?_, ?_, ?_, ?_⟩
  all_goals
    intro entry mem
    rcases List.mem_append.mp mem with old | new
  · exact consistent.name entry old
  · cases List.mem_singleton.mp new
    rfl
  · exact consistent.notScalar entry old
  · cases List.mem_singleton.mp new
    exact notScalar
  · exact consistent.notCustom entry old
  · cases List.mem_singleton.mp new
    exact notCustom
  · exact consistent.struct entry old
  · cases List.mem_singleton.mp new
    exact struct
  · exact fun refType shared isShared => still (consistent.refers entry old refType shared isShared)
  · cases List.mem_singleton.mp new
    exact fun refType shared isShared => still (refers refType shared isShared)

/-- An entry which is read keeps the types consistent. -/
theorem Structs.Consistent.importType (consistent : cstruct.Consistent)
    (ok : importType cstruct (t.ctype, t.desc) = .ok next) : next.Consistent := by
  have struct : ∀ name bytes, Yaml.importType cstruct (name, ⟨name, some bytes, none, none⟩) =
      .ok next → next.Consistent := by
    intro name bytes ok
    by_cases isShared : name = "Shared"
    · simp [Yaml.importType, isShared, key, bind, Except.bind] at ok
    · simp only [Yaml.importType, isShared, if_false, key, bind, Except.bind, pure,
        Except.pure, Except.ok.injEq] at ok
      rw [← ok]
      refine consistent.concat (t := .cStructType name bytes) (by simp) (by simp) ?_ (by simp)
      rintro _ _ ⟨rfl, -⟩
      exact isShared
  cases t with
  | cType s =>
      have notShared : s.ctype ≠ "Shared" := by cases s <;> decide
      simp [Yaml.importType, SampleType.desc, notShared, key, bind, Except.bind] at ok
  | cStructType name bytes => exact struct name bytes ok
  | cCustomType name bytes => exact struct name bytes ok
  | sharedType refType shared =>
      simp only [Yaml.importType, SampleType.desc, if_true, key, bind, Except.bind] at ok
      cases found : cstruct.lookup refType.ctype with
      | none => simp [found] at ok
      | some read =>
          simp only [found, pure, Except.pure, Except.ok.injEq] at ok
          have mem := mem_of_lookup found
          have name : refType.ctype = read.ctype := consistent.name _ mem
          have isName : (SampleType.sharedType refType shared).ctype =
              (SampleType.sharedType read shared).ctype := by
            rw [SampleType.ctype, SampleType.ctype, name]
          rw [← ok, isName]
          refine consistent.concat (by simp) (by simp) (by simp) ?_
          rintro _ _ ⟨rfl, -⟩
          rw [← name]
          exact found

theorem Structs.Consistent.foldlM_importType {table : List (String × TypeDesc)}
    (consistent : cstruct.Consistent)
    (entries : ∀ entry ∈ table, ∃ t : SampleType, entry = (t.ctype, t.desc))
    (ok : table.foldlM Yaml.importType cstruct = .ok next) : next.Consistent := by
  induction table generalizing cstruct with
  | nil =>
      cases ok
      exact consistent
  | cons entry table ih =>
      rcases entries entry (by simp) with ⟨t, rfl⟩
      rw [List.foldlM_cons] at ok
      cases first : Yaml.importType cstruct (t.ctype, t.desc) with
      | error error =>
          rw [first] at ok
          cases ok
      | ok second =>
          rw [first] at ok
          exact ih (consistent.importType first)
            (fun other mem => entries other (List.mem_cons_of_mem _ mem)) ok

theorem mem_foldl_addType {new : List SampleType} {table : List (String × TypeDesc)}
    {entry : String × TypeDesc}
    (mem : entry ∈ new.foldl (fun table t => addType t.ctype t.desc table) table) :
    entry ∈ table ∨ ∃ t : SampleType, entry = (t.ctype, t.desc) := by
  induction new generalizing table with
  | nil => exact .inl mem
  | cons t new ih =>
      rcases ih mem with old | isType
      · simp only [addType] at old
        split_ifs at old
        · exact .inl old
        · rcases List.mem_append.mp old with old | isNew
          · exact .inl old
          · exact .inr ⟨t, List.mem_singleton.mp isNew⟩
      · exact .inr isType

/-- The types which are read from the table of some types are consistent. -/
theorem consistent_of_read {types : List SampleType}
    (read : (types.foldl createYAMLType []).foldlM importType [] = .ok cstruct) :
    cstruct.Consistent := by
  have start : Structs.Consistent [] := by constructor <;> rintro _ ⟨⟩
  refine start.foldlM_importType ?_ read
  intro entry mem
  rw [foldl_createYAMLType] at mem
  rcases mem_foldl_addType mem with nothing | isType
  · cases nothing
  · exact isType

/-- A type which is read is found by its own name. -/
theorem Structs.Consistent.dataType (consistent : cstruct.Consistent) {name : String}
    (found : dataType cstruct name = .ok t) : Yaml.dataType cstruct t.ctype = .ok t := by
  unfold Yaml.dataType at found
  split at found
  · cases found
    exact dataType_scalar cstruct _
  · split at found
    · rename_i notScalar _ _ isFound
      cases found
      have isName : name = t.ctype := consistent.name _ (mem_of_lookup isFound)
      simp only [Yaml.dataType, ← isName, notScalar, isFound]
    · cases found

/-- With a type all those it refers to are found. -/
theorem Structs.Consistent.lookup_described (consistent : cstruct.Consistent)
    (found : cstruct.lookup t.ctype = some t) {other : SampleType} (mem : other ∈ t.described) :
    cstruct.lookup other.ctype = some other := by
  induction t with
  | cType s => cases mem
  | cStructType name bytes =>
      cases List.mem_singleton.mp mem
      exact found
  | cCustomType name bytes =>
      cases List.mem_singleton.mp mem
      exact found
  | sharedType refType shared ih =>
      rcases List.mem_append.mp mem with inner | isLast
      · exact ih (consistent.refers _ (mem_of_lookup found) refType shared rfl) inner
      · cases List.mem_singleton.mp isLast
        exact found

/-- A type which is found by its name is a scalar, or is in the table and not named as a scalar. -/
theorem dataType_cases (found : dataType cstruct t.ctype = .ok t) :
    (∃ s, t = .cType s) ∨ (∀ s : CType, s.ctype ≠ t.ctype) ∧ cstruct.lookup t.ctype = some t := by
  unfold dataType at found
  split at found
  · cases found
    exact .inl ⟨_, rfl⟩
  · rename_i notScalar
    right
    refine ⟨fun s => ?_, ?_⟩
    · have mem : s ∈ scalars := List.mem_of_find?_eq_some (scalars_find s)
      simpa using List.find?_eq_none.mp notScalar s mem
    · split at found
      · rename_i other isFound
        rw [isFound]
        exact congrArg some (Except.ok.inj found)
      · cases found

/-- The types of a table which is read, and in which they are found by their names, are read as
they were. -/
theorem TypesKept.of_read {types : List SampleType}
    (read : (types.foldl createYAMLType []).foldlM importType [] = .ok cstruct)
    (found : ∀ t ∈ types, dataType cstruct t.ctype = .ok t) : TypesKept types := by
  have consistent := consistent_of_read read
  have isFound : ∀ t ∈ types.flatMap SampleType.described, cstruct.lookup t.ctype = some t := by
    intro other mem
    rcases List.mem_flatMap.mp mem with ⟨t, isType, described⟩
    rcases dataType_cases (found t isType) with ⟨s, rfl⟩ | ⟨-, lookup⟩
    · cases described
    · exact consistent.lookup_described lookup described
  refine ⟨?_, ?_, ?_, ?_, ?_⟩
  · intro name bytes mem
    rcases dataType_cases (found _ mem) with ⟨s, isScalar⟩ | ⟨notScalar, -⟩
    · cases isScalar
    · exact notScalar
  · intro name bytes mem
    exact consistent.struct _ (mem_of_lookup (isFound _ mem)) name bytes rfl
  · intro name bytes mem
    exact consistent.notCustom _ (mem_of_lookup (isFound _ mem)) name bytes rfl
  · intro s shared mem
    have refers := consistent.refers _ (mem_of_lookup (isFound _ mem)) _ _ rfl
    exact consistent.notScalar _ (mem_of_lookup refers) s rfl
  · intro t mem other otherMem same
    have lookup := isFound t mem
    rw [same, isFound other otherMem] at lookup
    exact (Option.some.inj lookup).symm

end Converse

end CmsisStream.Yaml
