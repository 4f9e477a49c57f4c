import Mathlib
import ScriptEngine.Builtin.Globals
import ScriptEngine.Builtin.Objects
import ScriptEngine.Eval.Expression
import ScriptEngine.Proofs.Evaluation.Laws

/-!
# Sequences that are built

Repetition, padding and ranges make texts and arrays of a size that a program asks for in numbers.  The
size is worked out before anything is built, and beyond `maxSequenceLength` there is a fault instead;
`limited` is that choice.

**Texts.**  Repetition measures its result in bytes.  Padding measures the width in characters, so its
limit is one of bytes only where each character is one byte.

**Ranges.**  The number of steps is worked out by a division and the numbers are worked out one by one;
`lt_stepCount_iff` is what joins the two.  A step that comes before the end is a word again, whatever
the bounds and the step are.
-/

namespace ScriptEngine

namespace Text

variable {s fill acc rest : List Char}

theorem toList_repeatOnto
    (s : String) (n : Nat) (acc : String) :
    (repeatOnto s n acc).toList = acc.toList ++ (List.replicate n s.toList).flatten := by
  induction n generalizing acc with
  | zero =>
      simp [repeatOnto]
  | succ n ih =>
      rw [repeatOnto, ih, String.toList_append, List.replicate_succ, List.flatten_cons,
        List.append_assoc]

theorem toList_times
    (s : String) (n : Nat) :
    (times s n).toList = (List.replicate n s.toList).flatten := by
  unfold times
  split
  · next hempty =>
      rw [String.isEmpty_iff.mp hempty]
      simp
  · rw [toList_repeatOnto]
    simp

theorem utf8Len_flatten_replicate
    (cs : List Char) (n : Nat) :
    String.utf8Len (List.replicate n cs).flatten = String.utf8Len cs * n := by
  induction n with
  | zero =>
      rfl
  | succ n ih =>
      rw [List.replicate_succ, List.flatten_cons, String.utf8Len_append, ih, Nat.mul_succ,
        Nat.add_comm]

theorem utf8ByteSize_times
    (s : String) (n : Nat) :
    (times s n).utf8ByteSize = s.utf8ByteSize * n := by
  rw [← String.utf8Len_toList, toList_times, utf8Len_flatten_replicate, String.utf8Len_toList]

/-- The first characters of a text that is repeated over and over. -/
def filling (fill : String) (n : Nat) : List Char :=
  ((List.replicate n fill.toList).flatten).take n

theorem le_length_flatten_replicate
    (hfill : fill ≠ []) (n : Nat) :
    n ≤ (List.replicate n fill).flatten.length := by
  have hpos : 1 ≤ fill.length := List.length_pos_iff.mpr hfill
  simpa using Nat.mul_le_mul_left n hpos

theorem length_filling
    {fill : String} (hfill : fill ≠ "") (n : Nat) :
    (filling fill n).length = n := by
  rw [filling, List.length_take]
  exact Nat.min_eq_left (le_length_flatten_replicate (by simpa using hfill) n)

theorem mem_filling
    {fill : String} {n : Nat} {ch : Char} (h : ch ∈ filling fill n) :
    ch ∈ fill.toList := by
  obtain ⟨cs, hcs, hch⟩ := List.mem_flatten.mp (List.mem_of_mem_take h)
  rwa [List.eq_of_mem_replicate hcs] at hch

/-- The rounds that are still to come may be any number that is large enough. -/
theorem toList_cycleOnto
    (hfill : fill ≠ []) {n m : Nat} (hm : n ≤ m) (rest : List Char) (acc : String) :
    (cycleOnto fill n rest acc).toList =
      acc.toList ++ (rest ++ (List.replicate m fill).flatten).take n := by
  induction n generalizing m rest acc with
  | zero =>
      simp [cycleOnto]
  | succ n ih =>
      cases rest with
      | cons c rest =>
          rw [cycleOnto, ih (Nat.le_of_succ_le hm), String.toList_push]
          simp
      | nil =>
          obtain ⟨c, rest, rfl⟩ := List.exists_cons_of_ne_nil hfill
          obtain ⟨m, rfl⟩ : ∃ m', m = m' + 1 := ⟨m - 1, by omega⟩
          rw [cycleOnto, ih (Nat.le_of_succ_le_succ hm), String.toList_push, List.replicate_succ,
            List.flatten_cons]
          simp

/-- A text that is too short is filled up on one side. -/
theorem toList_pad
    {s fill : String} {width : Nat} (hwidth : s.length < width) (hfill : fill ≠ "")
    (atStart : Bool) :
    (pad s width fill atStart).toList =
      if atStart then filling fill (width - s.length) ++ s.toList
      else s.toList ++ filling fill (width - s.length) := by
  have hsome : fill.toList ≠ [] := by simpa using hfill
  have hcycle := toList_cycleOnto hsome (Nat.le_refl (width - s.length)) []
  have hneeded : ¬ (width ≤ s.length || fill.isEmpty) = true := by
    simp [hfill, hwidth]
  rw [pad, if_neg hneeded]
  cases atStart <;> simp [hcycle, filling]

theorem pad_of_wide
    {s fill : String} {width : Nat} (h : width ≤ s.length ∨ fill = "") (atStart : Bool) :
    pad s width fill atStart = s := by
  have hdone : (width ≤ s.length || fill.isEmpty) = true := by
    simpa using h
  rw [pad, if_pos hdone]

theorem utf8ByteSize_le
    (s : String) :
    s.utf8ByteSize ≤ 4 * s.length := by
  rw [← String.utf8Len_toList, ← String.length_toList]
  induction s.toList with
  | nil =>
      exact Nat.le_refl 0
  | cons c cs ih =>
      have hc := c.utf8Size_le_four
      rw [String.utf8Len_cons, List.length_cons]
      omega

theorem utf8ByteSize_of_single
    {s : String} (h : ∀ ch ∈ s.toList, ch.utf8Size = 1) :
    s.utf8ByteSize = s.length := by
  rw [← String.utf8Len_toList, ← String.length_toList]
  generalize s.toList = cs at h
  induction cs with
  | nil =>
      rfl
  | cons c cs ih =>
      rw [String.utf8Len_cons, h c List.mem_cons_self,
        ih fun ch hch => h ch (List.mem_cons_of_mem c hch), List.length_cons]

theorem pad_cases
    (s : String) (width : Nat) (fill : String) (atStart : Bool) :
    pad s width fill atStart = s ∨ (pad s width fill atStart).length = width ∧
      (pad s width fill atStart).toList = (if atStart then filling fill (width - s.length) ++ s.toList
        else s.toList ++ filling fill (width - s.length)) ∧
      (pad s width fill atStart).utf8ByteSize ≤ 4 * width ∧
      ((∀ ch ∈ s.toList ++ fill.toList, ch.utf8Size = 1) →
        (pad s width fill atStart).utf8ByteSize = width) := by
  by_cases hdone : width ≤ s.length ∨ fill = ""
  · exact .inl (pad_of_wide hdone atStart)
  · obtain ⟨hwidth, hfill⟩ := not_or.mp hdone
    have hlist := toList_pad (Nat.not_le.mp hwidth) hfill atStart
    have hlength : (pad s width fill atStart).length = width := by
      rw [← String.length_toList, hlist]
      cases atStart <;>
        simp only [Bool.false_eq_true, if_true, if_false, List.length_append, length_filling hfill,
          String.length_toList] <;>
        omega
    refine .inr ⟨hlength, hlist, ?_, fun hsingle => ?_⟩
    · have hbytes := utf8ByteSize_le (pad s width fill atStart)
      rwa [hlength] at hbytes
    · refine (utf8ByteSize_of_single fun ch hch => hsingle ch ?_).trans hlength
      rw [hlist] at hch
      cases atStart
      · exact List.mem_append.mpr ((List.mem_append.mp hch).imp_right mem_filling)
      · exact List.mem_append.mpr ((List.mem_append.mp hch).symm.imp_right mem_filling)

end Text

namespace Eval

variable {α : Type}

/-- Something of a size is made if the size is within the limit, and otherwise there is a fault. -/
def limited (size : Nat) (what : String) (make : Eval α) : Eval α :=
  if size ≤ maxSequenceLength then make else fault (.sizeLimit what)

/-- The integers from one value to another, as an array. -/
def makeRange (first last : Value) : Eval Value := do
  let items ← ofExcept (rangeOf (← heap) first last)
  change fun h => h.newArray items

theorem ofExcept_repeated
    (s : String) (n : Int64) :
    ofExcept (repeated s n) =
      limited (s.utf8ByteSize * n.toInt.toNat) s!"string repeated {n} times"
        (pure (.str (Text.times s n.toInt.toNat))) := by
  by_cases hsize : s.utf8ByteSize * n.toInt.toNat ≤ maxSequenceLength
  · simp only [repeated, repeatFault?, limited, if_pos hsize]
    rfl
  · simp only [repeated, repeatFault?, limited, if_neg hsize]
    rfl

end Eval

namespace Builtin

open Eval (limited)

theorem callMethod_repeat
    (E : Engine) (s : String) (n : Int64) :
    callMethod E (.str s) "repeat" [.int n] =
      if n.toInt < 0 then Eval.fault (.other s!"repeat count must be >= 0, got {n}")
      else limited (s.utf8ByteSize * n.toInt.toNat) s!"string repeated {n} times"
        (pure (.str (Text.times s n.toInt.toNat))) := by
  rw [← Eval.ofExcept_repeated]
  show Eval.ofExcept (if n.toInt < 0 then throw _ else Eval.repeated s n) = _
  split <;> rfl

theorem callMethod_pad
    (E : Engine) (s fill : String) (n : Int64) {name : String} (atStart : Bool)
    (hname : name = if atStart then "padStart" else "padEnd") :
    callMethod E (.str s) name [.int n, .str fill] =
      limited n.toInt.toNat s!"{name} width {n.toInt.toNat}"
        (pure (.str (Text.pad s n.toInt.toNat fill atStart))) := by
  have hpad : ∀ h, padString h s name [.int n, .str fill] =
      if maxSequenceLength < n.toInt.toNat then
        .error (.sizeLimit s!"{name} width {n.toInt.toNat}")
      else .ok (.str (Text.pad s n.toInt.toNat fill (name == "padStart"))) := by
    intro h
    show (if maxSequenceLength < n.toInt.toNat then throw _ else pure _ >>= fun _ => _ :
      Except Cause Value) = _
    split <;> rfl
  have hcall : callMethod E (.str s) name [.int n, .str fill] =
      Eval.heap >>= fun h => Eval.ofExcept (padString h s name [.int n, .str fill]) := by
    subst hname
    cases atStart <;> rfl
  have hside : (name == "padStart") = atStart := by
    subst hname
    cases atStart <;> rfl
  rw [hcall, limited]
  simp only [hpad, hside]
  split <;> split <;> first | rfl | omega

/-! ### Ranges -/

/-- The words at so many steps from a start. -/
def strides (start step : Int) (count : Nat) : List Int64 :=
  (List.range count).map fun i => Int64.ofInt (start + step * Int.ofNat i)

/-- One integer comes before another in the direction of a step. -/
def Before (step x y : Int) : Prop := if 0 < step then x < y else y < x

instance (step x y : Int) : Decidable (Before step x y) :=
  inferInstanceAs (Decidable (if 0 < step then x < y else y < x))

/-- An integer is reached from a start, step by step, before an end. -/
def Reached (start stop step x : Int) : Prop :=
  ∃ k : Nat, x = start + step * k ∧ Before step x stop

/-- Words are the integers of a kind, in the direction of a step. -/
structure Enumerates (step : Int) (P : Int → Prop) (xs : List Int64) : Prop where
  mem_iff : ∀ x, x ∈ xs.map Int64.toInt ↔ P x
  ordered : (xs.map Int64.toInt).Pairwise (Before step)

theorem toArray_strides
    (start step : Int) (count : Nat) :
    ((strides start step count).map Value.int).toArray = Eval.progression start step count := by
  rw [← Array.toList_inj, Eval.progression, Array.toList_map, Array.toList_range, strides,
    List.map_map]
  rfl

theorem length_strides
    (start step : Int) (count : Nat) :
    (strides start step count).length = count := by
  rw [strides, List.length_map, List.length_range]

/-- An integer that is listed in an order is listed once. -/
theorem Enumerates.ncard_eq
    {step : Int} {P : Int → Prop} {xs : List Int64} (h : Enumerates step P xs) :
    {x | P x}.ncard = xs.length := by
  have hnodup : (xs.map Int64.toInt).Nodup :=
    h.ordered.imp fun hbefore heq => by
      unfold Before at hbefore
      split at hbefore <;> omega
  have hset : {x | P x} = ↑(xs.map Int64.toInt).toFinset := by
    ext x
    simp [← h.mem_iff]
  rw [hset, Set.ncard_coe_finset, List.toFinset_card_of_nodup hnodup, List.length_map]

theorem enumerates_strides
    {start step : Int} {count : Nat} {P : Int → Prop} (hstep : step ≠ 0)
    (hP : ∀ x, P x ↔ ∃ i < count, x = start + step * Int.ofNat i)
    (hword : ∀ x, P x → -2 ^ 63 ≤ x ∧ x < 2 ^ 63) :
    Enumerates step P (strides start step count) := by
  have hexact : (strides start step count).map Int64.toInt =
      (List.range count).map fun i => start + step * Int.ofNat i := by
    rw [strides, List.map_map]
    refine List.map_congr_left fun i hi => ?_
    obtain ⟨hlow, hhigh⟩ := hword _ ((hP _).mpr ⟨i, List.mem_range.mp hi, rfl⟩)
    exact Int64.toInt_ofInt_of_le hlow hhigh
  refine ⟨fun x => ?_, ?_⟩
  · rw [hexact, List.mem_map, hP]
    constructor
    · rintro ⟨i, hi, rfl⟩
      exact ⟨i, List.mem_range.mp hi, rfl⟩
    · rintro ⟨i, hi, rfl⟩
      exact ⟨i, List.mem_range.mpr hi, rfl⟩
  · rw [hexact, List.pairwise_map]
    refine List.pairwise_lt_range.imp fun {i j} hij => ?_
    have hlt : (Int.ofNat i) < Int.ofNat j := Int.ofNat_lt.mpr hij
    unfold Before
    split
    · next hpos =>
        have := Int.mul_lt_mul_of_pos_left hlt hpos
        omega
    · next hneg =>
        have := Int.mul_lt_mul_of_neg_left hlt (by omega : step < 0)
        omega

/-- The number of steps that is worked out by a division is the number of those that come before the
end. -/
theorem lt_stepCount_iff
    {start stop step : Int} (hstep : step ≠ 0) (i : Nat) :
    i < stepCount start stop step ↔ Before step (start + step * Int.ofNat i) stop := by
  have hpos : 0 < step.natAbs := Int.natAbs_pos.mpr hstep
  have hcount : ∀ span : Nat,
      i < (span + step.natAbs - 1) / step.natAbs ↔ i * step.natAbs < span := by
    intro span
    rw [← Nat.succ_le_iff, Nat.le_div_iff_mul_le hpos, Nat.succ_mul]
    omega
  have hmul : ((i * step.natAbs : Nat) : Int) = |step| * Int.ofNat i := by
    rw [Nat.cast_mul, Int.natCast_natAbs, Int.mul_comm]
    rfl
  unfold stepCount Before
  split
  · next h =>
      rw [abs_of_pos h] at hmul
      rw [hcount]
      omega
  · next h =>
      rw [abs_of_neg (by omega), Int.neg_mul] at hmul
      rw [hcount]
      omega

theorem stepCount_pred
    {start stop step : Int} (hstep : step ≠ 0) :
    stepCount (start + step) stop step = stepCount start stop step - 1 := by
  refine eq_of_forall_lt_iff fun i => ?_
  rw [lt_stepCount_iff hstep, Nat.lt_sub_iff_add_lt, lt_stepCount_iff hstep]
  have hmul : step * Int.ofNat (i + 1) = step * Int.ofNat i + step := by
    rw [Int.ofNat_eq_natCast, Int.ofNat_eq_natCast, Nat.cast_succ, Int.mul_add, Int.mul_one]
  rw [hmul, Int.add_assoc, Int.add_comm step]

theorem reached_iff
    {start stop step : Int} (hstep : step ≠ 0) (x : Int) :
    Reached start stop step x ↔
      ∃ i < stepCount start stop step, x = start + step * Int.ofNat i := by
  constructor
  · rintro ⟨k, rfl, hbefore⟩
    exact ⟨k, (lt_stepCount_iff hstep k).mpr hbefore, rfl⟩
  · rintro ⟨i, hi, rfl⟩
    exact ⟨i, rfl, (lt_stepCount_iff hstep i).mp hi⟩

/-- Between two words there are words only. -/
theorem Reached.isWord
    {start stop step : Int64} {x : Int} (h : Reached start.toInt stop.toInt step.toInt x) :
    -2 ^ 63 ≤ x ∧ x < 2 ^ 63 := by
  obtain ⟨k, rfl, hbefore⟩ := h
  have hstart := And.intro start.le_toInt start.toInt_lt
  have hstop := And.intro stop.le_toInt stop.toInt_lt
  unfold Before at hbefore
  split at hbefore
  · next hpos =>
      have := Int.mul_nonneg hpos.le (Int.natCast_nonneg k)
      omega
  · next hneg =>
      have := Int.mul_nonpos_of_nonpos_of_nonneg (Int.not_lt.mp hneg) (Int.natCast_nonneg k)
      omega

theorem toInt_of_inWord
    {n : Int} {w : Int64} (h : inWord? n = some w) :
    w.toInt = n := by
  unfold inWord? at h
  split at h
  · next hn =>
      cases h
      exact Int64.toInt_ofInt_of_le hn.1 (Int.lt_add_one_iff.mpr hn.2)
  · cases h

theorem inWord_of_isWord
    {n : Int} (h : -2 ^ 63 ≤ n ∧ n < 2 ^ 63) :
    inWord? n = some (Int64.ofInt n) :=
  if_pos ⟨h.1, Int.le_of_lt_add_one h.2⟩

/-- The words from one on, step by step, as long as they come before an end and are words. -/
def climb (stop step current : Int64) : List Int64 :=
  if _h : Before step.toInt current.toInt stop.toInt ∧ step ≠ 0 then
    current :: match _hnext : inWord? (current.toInt + step.toInt) with
      | some next => climb stop step next
      | none => []
  else []
termination_by
  (if 0 < step.toInt then stop.toInt - current.toInt else current.toInt - stop.toInt).toNat
decreasing_by
  have hstep : step.toInt ≠ 0 := by
    rw [← Int64.toInt_zero]
    exact fun heq => _h.2 (Int64.toInt_inj.mp heq)
  have hbefore := _h.1
  rw [toInt_of_inWord _hnext]
  unfold Before at hbefore
  split <;> split at hbefore <;> omega

theorem strides_succ
    (start : Int64) (step : Int) (count : Nat) :
    strides start.toInt step (count + 1) =
      start :: (strides (start.toInt + step) step count) := by
  rw [strides, List.range_succ_eq_map, List.map_cons, List.map_map, strides]
  refine congrArg₂ List.cons ?_ (List.map_congr_left fun i _ => ?_)
  · simp
  · simp only [Function.comp_apply, Int.ofNat_eq_natCast, Nat.cast_succ]
    ring_nf

/-- Going on by addition as long as the end is ahead visits the words that the number of steps gives. -/
theorem climb_eq
    {stop step : Int64} (hstep : step ≠ 0) (start : Int64) :
    climb stop step start =
      strides start.toInt step.toInt (stepCount start.toInt stop.toInt step.toInt) := by
  have hne : step.toInt ≠ 0 := fun heq => hstep (Int64.toInt_inj.mp heq)
  induction start using climb.induct stop step with
  | case1 start h ih =>
      have hfirst : 0 < stepCount start.toInt stop.toInt step.toInt := by
        rw [lt_stepCount_iff hne]
        simpa using h.1
      obtain ⟨count, hcount⟩ := Nat.exists_eq_succ_of_ne_zero hfirst.ne'
      rw [climb, dif_pos h, hcount, strides_succ]
      refine congrArg (start :: ·) ?_
      split
      · next next hnext =>
          rw [ih next hnext, toInt_of_inWord hnext, stepCount_pred hne, hcount, Nat.succ_sub_one]
      · next hnone =>
          -- A second step before the end would be a word.
          have hlast : count = 0 := by
            by_contra hmore
            have hsecond : 1 < stepCount start.toInt stop.toInt step.toInt := by
              omega
            have hreached := (reached_iff hne _).mpr ⟨1, hsecond, rfl⟩
            have hword := inWord_of_isWord hreached.isWord
            rw [show step.toInt * Int.ofNat 1 = step.toInt from Int.mul_one _, hnone] at hword
            cases hword
          rw [hlast]
          rfl
  | case2 start h =>
      have hnone : ¬ 0 < stepCount start.toInt stop.toInt step.toInt := by
        rw [lt_stepCount_iff hne]
        simpa using fun hbefore => h ⟨hbefore, hstep⟩
      rw [climb, dif_neg h, Nat.eq_zero_of_not_pos hnone]
      rfl

theorem callNative_range
    (E : Engine) (start stop step : Int64) :
    callNative E .range [.int start, .int stop, .int step] [] =
      if step = 0 then Eval.fault (.other "range() step must not be zero")
      else
        let count := stepCount start.toInt stop.toInt step.toInt
        limited count s!"range({start}, {stop}, {step})"
          (Eval.makeArray ((strides start.toInt step.toInt count).map .int)) := by
  have hitems : ∀ h, rangeItems h [.int start, .int stop, .int step] =
      if step = 0 then .error (.other "range() step must not be zero")
      else if maxSequenceLength < stepCount start.toInt stop.toInt step.toInt then
        .error (.sizeLimit s!"range({start}, {stop}, {step})")
      else .ok (Eval.progression start.toInt step.toInt
        (stepCount start.toInt stop.toInt step.toInt)) := by
    intro h
    show (if step = 0 then throw _ else if _ < _ then throw _ else pure _ : Except Cause _) = _
    split
    · rfl
    · split <;> rfl
  have hcall : callNative E .range [.int start, .int stop, .int step] [] =
      Eval.heap >>= fun h =>
        Eval.ofExcept (rangeItems h [.int start, .int stop, .int step]) >>= fun items =>
          Eval.change fun h => h.newArray items := rfl
  rw [hcall]
  simp only [hitems, limited, Eval.makeArray, toArray_strides]
  split
  · rfl
  · split <;> split <;> first | rfl | omega

theorem callNative_range_unit
    (E : Engine) (start stop : Int64) :
    callNative E .range [.int start, .int stop] [] =
      callNative E .range [.int start, .int stop, .int 1] [] := by
  rfl

/-- The integers between two words, both included, are as many steps of one. -/
theorem enumerates_between
    (first last : Int64) :
    Enumerates 1 (fun x => first.toInt ≤ x ∧ x ≤ last.toInt)
      (strides first.toInt 1 (last.toInt - first.toInt + 1).toNat) := by
  refine enumerates_strides Int.one_ne_zero (fun x => ?_) fun x hx => ?_
  · constructor
    · intro hx
      exact ⟨(x - first.toInt).toNat, by omega, by simp only [Int.ofNat_eq_natCast]; omega⟩
    · rintro ⟨i, hi, rfl⟩
      simp only [Int.ofNat_eq_natCast]
      omega
  · have hfirst := first.le_toInt
    have hlast := last.toInt_lt
    omega

theorem makeRange_int
    (first last : Int64) :
    Eval.makeRange (.int first) (.int last) =
      limited (last.toInt - first.toInt + 1).toNat s!"range {first}...{last}"
        (Eval.makeArray
          ((strides first.toInt 1 (last.toInt - first.toInt + 1).toNat).map .int)) := by
  have hvalues : ∀ h, Eval.rangeOf h (.int first) (.int last) = Eval.rangeValues first last :=
    fun _ => rfl
  simp only [Eval.makeRange, hvalues, Eval.rangeValues, limited, Eval.makeArray, toArray_strides]
  split <;> split <;> first | rfl | omega

/-- Up to an integer is before the next one. -/
theorem stepCount_succ
    {start stop : Int64} (hstop : stop ≠ Int64.maxValue) :
    stepCount start.toInt (stop + 1).toInt (1 : Int64).toInt =
      (stop.toInt - start.toInt + 1).toNat := by
  have hword : stop.toInt + 1 < 2 ^ 63 := by
    have hne : stop.toInt ≠ Int64.maxValue.toInt := fun heq => hstop (Int64.toInt_inj.mp heq)
    have hmax : Int64.maxValue.toInt = 2 ^ 63 - 1 := rfl
    have := stop.toInt_lt
    omega
  have hsucc : (stop + 1).toInt = stop.toInt + 1 := by
    have hlow := stop.le_toInt
    rw [Int64.toInt_add, Int64.toInt_one, Int.bmod_eq_of_le (by omega) (by omega)]
  rw [hsucc, Int64.toInt_one, stepCount]
  simp
  omega

/-- A range holds the integers that come before its end, in order, unless there are too many of them;
and so does a loop that adds the step as long as the sum is a word.  Up to an integer is before the
next one. -/
theorem ranges_exact
    (E : Engine) (start stop step : Int64) :
    (step ≠ 0 → ∃ xs,
      Enumerates step.toInt (Reached start.toInt stop.toInt step.toInt) xs ∧
      callNative E .range [.int start, .int stop, .int step] [] =
        limited {x | Reached start.toInt stop.toInt step.toInt x}.ncard
          s!"range({start}, {stop}, {step})" (Eval.makeArray (xs.map .int)) ∧
      climb stop step start = xs) ∧
    (∀ first last site env, Eval.evalExpr E (.range first last site) env =
      E.eval first env >>= fun a => E.eval last env >>= fun b => Eval.makeRange a b) ∧
    ∃ xs, Enumerates 1 (fun x => start.toInt ≤ x ∧ x ≤ stop.toInt) xs ∧
      Eval.makeRange (.int start) (.int stop) =
        limited (Set.Icc start.toInt stop.toInt).ncard s!"range {start}...{stop}"
          (Eval.makeArray (xs.map .int)) ∧
      (stop ≠ Int64.maxValue → callNative E .range [.int start, .int (stop + 1)] [] =
        limited (Set.Icc start.toInt stop.toInt).ncard s!"range({start}, {stop + 1}, {(1 : Int64)})"
          (Eval.makeArray (xs.map .int))) := by
  refine ⟨fun hstep => ?_, fun _ _ _ _ => rfl, ?_⟩
  · have hne : step.toInt ≠ 0 := fun heq => hstep (Int64.toInt_inj.mp heq)
    have hxs : Enumerates step.toInt (Reached start.toInt stop.toInt step.toInt) _ :=
      enumerates_strides hne (reached_iff hne) fun x hx => hx.isWord
    refine ⟨_, hxs, ?_, climb_eq hstep start⟩
    rw [callNative_range, if_neg hstep, hxs.ncard_eq, length_strides]
  · have hxs := enumerates_between start stop
    have hcount : (Set.Icc start.toInt stop.toInt).ncard =
        (stop.toInt - start.toInt + 1).toNat := by
      exact hxs.ncard_eq.trans (length_strides _ _ _)
    refine ⟨_, hxs, ?_, fun hstop => ?_⟩
    · rw [makeRange_int, hcount]
    · rw [callNative_range_unit, callNative_range, if_neg (by decide), stepCount_succ hstop, hcount,
        Int64.toInt_one]

theorem ranges_exact_fours :
    (4 : Int64) ≠ 0 ∧ (10 : Int64) ≠ Int64.maxValue ∧
      (∃ xs, Enumerates 4 (Reached 1 10 4) xs ∧ climb 10 4 1 = xs) ∧
      ∃ xs, Enumerates 1 (fun x => 1 ≤ x ∧ x ≤ 10) xs ∧
        callNative ⟨Eval.run 0, 0⟩ .range [.int 1, .int 11] [] =
          limited (Set.Icc (1 : Int) 10).ncard "range(1, 11, 1)" (Eval.makeArray (xs.map .int)) := by
  have hstep : (4 : Int64) ≠ 0 := by decide
  have hstop : (10 : Int64) ≠ Int64.maxValue := by decide
  obtain ⟨hrange, -, xs, hxs, -, hsucc⟩ := ranges_exact ⟨Eval.run 0, 0⟩ 1 10 4
  obtain ⟨ys, hys, -, hclimb⟩ := hrange hstep
  exact ⟨hstep, hstop, ⟨ys, hys, hclimb⟩, xs, hxs, hsucc hstop⟩

/-! ### The limit -/

/-- The integers that lengths are worked out in. -/
def Wide (n : Int) : Prop := -2 ^ 127 ≤ n ∧ n < 2 ^ 127

/-- What is repeated, padded or ranged over is of the size that was worked out, and there is a fault if
that is beyond the limit.  A padded text is the text itself or as many characters as were asked for, which
are as many bytes if each character is one byte.  No length is too large to be worked out. -/
theorem built_limited
    (E : Engine) (s fill : String) (a b n step : Int64) :
    (∃ t : String, t.toList = (List.replicate n.toInt.toNat s.toList).flatten ∧
      t.utf8ByteSize = s.utf8ByteSize * n.toInt.toNat ∧
      let product := limited t.utf8ByteSize s!"string repeated {n} times" (pure (.str t))
      Eval.binaryOp E .multiply (.str s) (.int n) = product ∧
      Eval.binaryOp E .multiply (.int n) (.str s) = product ∧
      callMethod E (.str s) "repeat" [.int n] =
        if n.toInt < 0 then Eval.fault (.other s!"repeat count must be >= 0, got {n}")
        else product) ∧
    (∀ (atStart : Bool) (name : String) (width : Nat),
      name = (if atStart then "padStart" else "padEnd") → width = n.toInt.toNat →
      ∃ t : String, callMethod E (.str s) name [.int n, .str fill] =
        limited width s!"{name} width {width}" (pure (.str t)) ∧
      (t = s ∨ t.length = width ∧
        t.toList = (if atStart then Text.filling fill (width - s.length) ++ s.toList
          else s.toList ++ Text.filling fill (width - s.length)) ∧
        t.utf8ByteSize ≤ 4 * width ∧
        ((∀ ch ∈ s.toList ++ fill.toList, ch.utf8Size = 1) → t.utf8ByteSize = width))) ∧
    (∀ first last site env, Eval.evalExpr E (.range first last site) env =
      E.eval first env >>= fun a => E.eval last env >>= fun b => Eval.makeRange a b) ∧
    (∃ xs : List Value, Eval.makeRange (.int a) (.int b) =
      limited xs.length s!"range {a}...{b}" (Eval.makeArray xs)) ∧
    (∃ xs : List Value, callNative E .range [.int a, .int b, .int step] [] =
      if step = 0 then Eval.fault (.other "range() step must not be zero")
      else limited xs.length s!"range({a}, {b}, {step})" (Eval.makeArray xs)) ∧
    ∀ span ∈ [b.toInt - a.toInt, a.toInt - b.toInt],
      Wide span ∧ Wide (span + 1) ∧ Wide (max span 0 + step.toInt.natAbs - 1) := by
  refine ⟨?_, fun atStart name width hname hwidth => ?_, fun _ _ _ _ => rfl, ?_, ?_, ?_⟩
  · refine ⟨Text.times s n.toInt.toNat, Text.toList_times _ _, Text.utf8ByteSize_times _ _, ?_⟩
    rw [Text.utf8ByteSize_times, callMethod_repeat, ← Eval.ofExcept_repeated]
    exact ⟨rfl, rfl, rfl⟩
  · subst hwidth
    exact ⟨_, callMethod_pad E s fill n atStart hname, Text.pad_cases s _ fill atStart⟩
  · refine ⟨(strides a.toInt 1 (b.toInt - a.toInt + 1).toNat).map .int, ?_⟩
    rw [makeRange_int, List.length_map, length_strides]
  · refine ⟨(strides a.toInt step.toInt (stepCount a.toInt b.toInt step.toInt)).map .int, ?_⟩
    rw [callNative_range, List.length_map, length_strides]
  · intro span hspan
    have ha := And.intro a.le_toInt a.toInt_lt
    have hb := And.intro b.le_toInt b.toInt_lt
    have hstep := And.intro step.le_toInt step.toInt_lt
    rw [List.mem_pair] at hspan
    unfold Wide
    omega

theorem built_limited_dashes :
    (∀ ch ∈ "ab".toList ++ "-".toList, ch.utf8Size = 1) ∧
      ∃ t, callMethod ⟨Eval.run 0, 0⟩ (.str "ab") "padStart" [.int 5, .str "-"] =
          limited 5 "padStart width 5" (pure (.str t)) ∧
        (t = "ab" ∨ t.utf8ByteSize = 5) := by
  have hall : ("ab".toList ++ "-".toList).all (fun ch => decide (ch.utf8Size = 1)) = true := rfl
  have hsingle : ∀ ch ∈ "ab".toList ++ "-".toList, ch.utf8Size = 1 :=
    fun ch hch => of_decide_eq_true (List.all_eq_true.mp hall ch hch)
  obtain ⟨-, hpad, -⟩ := built_limited ⟨Eval.run 0, 0⟩ "ab" "-" 0 0 5 0
  obtain ⟨t, hcall, ht⟩ := hpad true "padStart" 5 rfl rfl
  exact ⟨hsingle, t, hcall, ht.imp_right fun ⟨_, _, _, hbytes⟩ => hbytes hsingle⟩

end Builtin
end ScriptEngine
