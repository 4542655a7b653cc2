import Mathlib.Data.Nat.Digits.Lemmas
import Mathlib.Data.List.Lex
import Mathlib.Data.List.Sort
import Mathlib.Data.String.Basic

/-!
# The names of the outputs of a duplicate node

`outputNameFromIndex` writes the index of an output in base 26 with the letters
`a` to `z`, padded on the left with `a` to six letters.  The code generation sorts
the outputs by name.  For six letters the order of the names is the order of the
indices, so that the sorted names are those of `addManyOutput` in the order of
creation.
-/

namespace CmsisStream.Scheduler

/-- The loop of `numberToBase`, for a base of at least two. -/
def numberToBaseLoop (b n : ℕ) (digits : List ℕ) : List ℕ :=
  if _h : 0 < n ∧ 1 < b then numberToBaseLoop b (n / b) (digits ++ [n % b]) else digits
termination_by n
decreasing_by exact Nat.div_lt_self _h.1 _h.2

/-- `numberToBase`, most significant digit first. -/
def numberToBase (n b : ℕ) : List ℕ :=
  if n = 0 then [0] else (numberToBaseLoop b n []).reverse

/-- `chr(x+ord('a'))` -/
def digitLetter (x : ℕ) : Char := Char.ofNat (x + 'a'.toNat)

/-- The letters of `Duplicate.outputNameFromIndex`, padded by `rjust(6,"a")`. -/
def outputLetters (i : ℕ) : List Char :=
  ((numberToBase i 26).map digitLetter).leftpad 6 'a'

/-- `Duplicate.outputNameFromIndex` -/
def outputNameFromIndex (i : ℕ) : String := String.ofList (outputLetters i)

/-- The assignment `self._outputs[name]=Output(...)`: a name which is there keeps its place. -/
def setOutput (name : String) (output : ℕ) (outputs : List (String × ℕ)) : List (String × ℕ) :=
  if outputs.any (fun entry => entry.1 = name) then
    outputs.map fun entry => if entry.1 = name then (name, output) else entry
  else outputs ++ [(name, output)]

/-- `_outputs` after `addManyOutput`; the output of index `i` is written `i`. -/
def addManyOutput (nb : ℕ) : List (String × ℕ) :=
  (List.range nb).foldl (fun outputs i => setOutput (outputNameFromIndex i) i outputs) []

/-- `BaseNode.outputNames` -/
def outputNames (outputs : List (String × ℕ)) : List String :=
  (outputs.map Prod.fst).mergeSort fun name other => decide (name ≤ other)

/-- `BaseNode.outputPortFromID` -/
def outputPortFromID (outputs : List (String × ℕ)) (i : ℕ) : Option ℕ := do
  let k ← (outputNames outputs)[i]?
  (outputs.find? fun entry => entry.1 = k).map Prod.snd

/-- The number of names of six letters. -/
def nameCapacity : ℕ := 26 ^ 6

/-! ### Numbers and their digits -/

theorem numberToBaseLoop_eq {b : ℕ} (base : 1 < b) (n : ℕ) (digits : List ℕ) :
    numberToBaseLoop b n digits = digits ++ Nat.digits b n := by
  induction n using Nat.strong_induction_on generalizing digits with
  | _ n ih =>
      rw [numberToBaseLoop]
      by_cases positive : 0 < n
      · rw [dif_pos ⟨positive, base⟩, ih (n / b) (Nat.div_lt_self positive base),
          Nat.digits_def' base positive]
        simp
      · obtain rfl : n = 0 := by omega
        simp

theorem reverse_numberToBase {b : ℕ} (base : 1 < b) (n : ℕ) :
    (numberToBase n b).reverse = if n = 0 then [0] else Nat.digits b n := by
  unfold numberToBase
  split_ifs
  · rfl
  · rw [List.reverse_reverse, numberToBaseLoop_eq base, List.nil_append]

/-- The value of a list of digits, most significant digit first. -/
def bigEndian (b : ℕ) (digits : List ℕ) : ℕ := Nat.ofDigits b digits.reverse

theorem bigEndian_cons (b d : ℕ) (digits : List ℕ) :
    bigEndian b (d :: digits) = d * b ^ digits.length + bigEndian b digits := by
  simp [bigEndian, Nat.ofDigits_append, Nat.add_comm, Nat.mul_comm]

theorem bigEndian_lt {b : ℕ} {digits : List ℕ} (base : 1 < b) (small : ∀ d ∈ digits, d < b) :
    bigEndian b digits < b ^ digits.length := by
  rw [bigEndian, ← List.length_reverse]
  exact Nat.ofDigits_lt_base_pow_length base fun d dMem => small d (List.mem_reverse.mp dMem)

theorem bigEndian_numberToBase {b : ℕ} (base : 1 < b) (n : ℕ) :
    bigEndian b (numberToBase n b) = n := by
  rw [bigEndian, reverse_numberToBase base]
  split_ifs with zero
  · simp [zero]
  · exact Nat.ofDigits_digits b n

theorem numberToBase_lt {b : ℕ} (base : 1 < b) (n : ℕ) : ∀ d ∈ numberToBase n b, d < b := by
  intro d dMem
  rw [← List.mem_reverse, reverse_numberToBase base] at dMem
  split_ifs at dMem
  · rw [List.mem_singleton.mp dMem]
    omega
  · exact Nat.digits_lt_base base dMem

theorem length_numberToBase_le {b n k : ℕ} (base : 1 < b) (positive : 0 < k) (small : n < b ^ k) :
    (numberToBase n b).length ≤ k := by
  rw [← List.length_reverse, reverse_numberToBase base]
  split_ifs
  · exact positive
  · exact (Nat.digits_length_le_iff base n).mpr small

/-- Zeros in front of the digits do not change the number. -/
theorem bigEndian_leftpad (b k : ℕ) (digits : List ℕ) :
    bigEndian b (digits.leftpad k 0) = bigEndian b digits := by
  rw [List.leftpad]
  generalize k - digits.length = zeros
  induction zeros with
  | zero => rfl
  | succ zeros ih =>
      rw [List.replicate_succ, List.cons_append, bigEndian_cons, ih]
      simp

/-! ### The order of the names -/

theorem digitLetter_lt {d e : ℕ} (less : d < e) (small : e < 26) :
    digitLetter d < digitLetter e := by
  have letters : ∀ e : Fin 26, ∀ d : Fin 26, d < e → digitLetter d < digitLetter e := by
    decide
  exact letters ⟨e, small⟩ ⟨d, less.trans small⟩ less

/-- For lists of one length the order of the letters is that of the numbers. -/
theorem letters_lt {x y : List ℕ} (sameLength : x.length = y.length) (xSmall : ∀ d ∈ x, d < 26)
    (ySmall : ∀ d ∈ y, d < 26) (less : bigEndian 26 x < bigEndian 26 y) :
    x.map digitLetter < y.map digitLetter := by
  induction x generalizing y with
  | nil =>
      obtain rfl := List.length_eq_zero_iff.mp sameLength.symm
      exact absurd less (lt_irrefl _)
  | cons d x ih =>
      cases y with
      | nil => simp at sameLength
      | cons e y =>
          have tails : x.length = y.length := by simpa using sameLength
          rw [bigEndian_cons, bigEndian_cons, tails] at less
          rw [List.map_cons, List.map_cons, List.cons_lt_cons_iff]
          rcases lt_trichotomy d e with first | same | first
          · exact .inl (digitLetter_lt first (ySmall e (by simp)))
          · subst same
            refine .inr ⟨rfl, ih tails ?_ ?_ (by omega)⟩
            · exact fun d dMem => xSmall d (List.mem_cons_of_mem _ dMem)
            · exact fun d dMem => ySmall d (List.mem_cons_of_mem _ dMem)
          · -- a larger first digit outweighs all the digits which follow
            have tailSmall : bigEndian 26 y < 26 ^ y.length :=
              bigEndian_lt (by omega) fun d dMem => ySmall d (List.mem_cons_of_mem _ dMem)
            have firstLarger : (e + 1) * 26 ^ y.length ≤ d * 26 ^ y.length :=
              Nat.mul_le_mul_right _ first
            rw [Nat.add_mul] at firstLarger
            omega

/-- The digits of an index, padded with zeros. -/
def paddedDigits (i : ℕ) : List ℕ := (numberToBase i 26).leftpad 6 0

theorem outputLetters_eq (i : ℕ) : outputLetters i = (paddedDigits i).map digitLetter := by
  simp only [outputLetters, paddedDigits, List.leftpad, List.map_append, List.map_replicate,
    List.length_map]
  rfl

theorem length_paddedDigits {i : ℕ} (inCapacity : i < nameCapacity) :
    (paddedDigits i).length = 6 := by
  have short := length_numberToBase_le (k := 6) (by omega : 1 < 26) (by omega) inCapacity
  rw [paddedDigits, List.length_leftpad]
  omega

theorem paddedDigits_lt (i : ℕ) : ∀ d ∈ paddedDigits i, d < 26 := by
  intro d dMem
  rw [paddedDigits, List.leftpad, List.mem_append, List.mem_replicate] at dMem
  rcases dMem with ⟨-, rfl⟩ | digit
  · omega
  · exact numberToBase_lt (by omega) i d digit

theorem bigEndian_paddedDigits (i : ℕ) : bigEndian 26 (paddedDigits i) = i := by
  rw [paddedDigits, bigEndian_leftpad, bigEndian_numberToBase (by omega)]

theorem outputNameFromIndex_lt {i j : ℕ} (less : i < j) (inCapacity : j < nameCapacity) :
    outputNameFromIndex i < outputNameFromIndex j := by
  have letters : outputLetters i < outputLetters j := by
    rw [outputLetters_eq, outputLetters_eq]
    apply letters_lt
    · rw [length_paddedDigits (less.trans inCapacity), length_paddedDigits inCapacity]
    · exact paddedDigits_lt i
    · exact paddedDigits_lt j
    · rwa [bigEndian_paddedDigits, bigEndian_paddedDigits]
  rw [String.lt_iff_toList_lt]
  simpa [outputNameFromIndex] using letters

theorem outputNameFromIndex_inj {i j : ℕ} (iInCapacity : i < nameCapacity)
    (jInCapacity : j < nameCapacity) (same : outputNameFromIndex i = outputNameFromIndex j) :
    i = j := by
  rcases lt_trichotomy i j with less | equal | less
  · exact absurd same (outputNameFromIndex_lt less jInCapacity).ne
  · exact equal
  · exact absurd same (outputNameFromIndex_lt less iInCapacity).ne'

/-- No output is lost and they are recorded in the order of their indices. -/
theorem addManyOutput_eq {nb : ℕ} (inCapacity : nb ≤ nameCapacity) :
    addManyOutput nb = (List.range nb).map fun i => (outputNameFromIndex i, i) := by
  induction nb with
  | zero => rfl
  | succ nb ih =>
      have before := ih (by omega)
      unfold addManyOutput at before ⊢
      rw [List.range_succ, List.foldl_append, before, List.map_append, List.foldl_cons,
        List.foldl_nil, setOutput, if_neg]
      · rfl
      · simp only [List.any_map, List.any_eq_true, List.mem_range, Function.comp_apply,
          decide_eq_true_eq]
        rintro ⟨i, less, same⟩
        exact less.ne (outputNameFromIndex_inj (by omega) (by omega) same)

/-- Sorting the names of the outputs gives them in the order of their indices. -/
theorem outputNames_addManyOutput {nb : ℕ} (inCapacity : nb ≤ nameCapacity) :
    outputNames (addManyOutput nb) = (List.range nb).map outputNameFromIndex := by
  rw [addManyOutput_eq inCapacity, outputNames, List.map_map]
  apply List.mergeSort_of_pairwise
  rw [List.pairwise_map]
  refine List.Pairwise.imp_of_mem ?_ List.pairwise_lt_range
  intro i j _ jMem less
  rw [decide_eq_true_eq]
  exact (outputNameFromIndex_lt less ((List.mem_range.mp jMem).trans_le inCapacity)).le

/-- The output found by its position in the sorted names is the one of this index. -/
theorem outputPortFromID_addManyOutput {nb i : ℕ} (inCapacity : nb ≤ nameCapacity)
    (less : i < nb) : outputPortFromID (addManyOutput nb) i = some i := by
  have found : ((List.range nb).map fun i => (outputNameFromIndex i, i)).find?
      (fun entry => entry.1 = outputNameFromIndex i) = some (outputNameFromIndex i, i) := by
    rw [List.find?_map, Option.map_eq_some_iff]
    refine ⟨i, ?_, rfl⟩
    rw [List.find?_eq_some_iff_getElem]
    refine ⟨by simp, i, by simpa using less, by simp, ?_⟩
    intro j before
    have differ : outputNameFromIndex j ≠ outputNameFromIndex i := fun same =>
      before.ne (outputNameFromIndex_inj (by omega) (by omega) same)
    simpa using differ
  have name : ((List.range nb).map outputNameFromIndex)[i]? = some (outputNameFromIndex i) := by
    simp [less]
  rw [outputPortFromID, outputNames_addManyOutput inCapacity, addManyOutput_eq inCapacity, name]
  change Option.map Prod.snd (List.find? _ _) = some i
  rw [found]
  rfl

/-- The names of the outputs of a duplicate node are in the order of the indices, whether two
of them are compared or all are sorted, and none is lost. -/
theorem outputNames_keep_order (nb : ℕ) (inCapacity : nb ≤ nameCapacity) :
    (∀ i j, i < j → j < nb → outputNameFromIndex i ≠ outputNameFromIndex j ∧
      outputNameFromIndex i < outputNameFromIndex j) ∧
    outputNames (addManyOutput nb) = (List.range nb).map outputNameFromIndex ∧
    ∀ i < nb, outputPortFromID (addManyOutput nb) i = some i := by
  refine ⟨?_, outputNames_addManyOutput inCapacity, ?_⟩
  · intro i j less jLess
    have ordered := outputNameFromIndex_lt less (jLess.trans_le inCapacity)
    exact ⟨ordered.ne, ordered⟩
  · exact fun i less => outputPortFromID_addManyOutput inCapacity less

/-- Thirty outputs, some of which have a name past the first power of the base. -/
theorem thirtyOutputs_keep_order :
    outputNames (addManyOutput 30) = (List.range 30).map outputNameFromIndex :=
  (outputNames_keep_order 30 (by unfold nameCapacity; omega)).2.1

example : outputNameFromIndex 27 = "aaaabb" := by
  simp [outputNameFromIndex, outputLetters, numberToBase, numberToBaseLoop, digitLetter]

end CmsisStream.Scheduler
