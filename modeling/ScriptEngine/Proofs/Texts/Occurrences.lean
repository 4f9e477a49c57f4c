import Mathlib
import ScriptEngine.Proofs.Values.Rendering

/-!
# Occurrences in texts

Where characters occur among others (`OccursAt`) is said without a search.

* `indexFrom?_eq_some_iff`, `lastIndexFrom?_eq_some_iff`: the searches find the first place and the
  last one.
* `Cuts`: how a text falls into pieces when the occurrences of another are cut out from left to
  right.  `piecesFrom` does this (`cuts_piecesFrom`), and what is known of the pieces is shown from
  the cuts alone.
* `Builtin.split_joins`: what a string was split into joins to the string again.
* `Builtin.searches_and_slices_agree`: a search answers with the place where slicing gives what was
  searched for.  Both count characters.
-/

namespace ScriptEngine
namespace Text

variable {t cs pre : List Char} {c : Char} {i k n : Nat}

/-! ### Places -/

/-- Characters occur among others, so many characters from the start. -/
def OccursAt (t cs : List Char) (i : Nat) : Prop :=
  ∃ before after, cs = before ++ t ++ after ∧ before.length = i

theorem exists_occursAt_iff :
    (∃ i, OccursAt t cs i) ↔ t <:+: cs := by
  constructor
  · rintro ⟨_, before, after, heq, -⟩
    exact ⟨before, after, heq.symm⟩
  · rintro ⟨before, after, heq⟩
    exact ⟨_, before, after, heq.symm, rfl⟩

theorem occursAt_zero_iff :
    OccursAt t cs 0 ↔ t <+: cs := by
  constructor
  · rintro ⟨before, after, rfl, hlength⟩
    rw [List.eq_nil_of_length_eq_zero hlength]
    exact ⟨after, rfl⟩
  · rintro ⟨after, rfl⟩
    exact ⟨[], after, rfl, rfl⟩

theorem occursAt_cons_succ_iff :
    OccursAt t (c :: cs) (i + 1) ↔ OccursAt t cs i := by
  constructor
  · rintro ⟨before, after, heq, hlength⟩
    cases before with
    | nil =>
        nomatch hlength
    | cons b before =>
        cases heq
        exact ⟨before, after, rfl, Nat.succ.inj hlength⟩
  · rintro ⟨before, after, rfl, rfl⟩
    exact ⟨c :: before, after, rfl, rfl⟩

theorem occursAt_append_iff :
    OccursAt t (pre ++ cs) (pre.length + i) ↔ OccursAt t cs i := by
  induction pre with
  | nil =>
      rw [List.nil_append, List.length_nil, Nat.zero_add]
  | cons c pre ih =>
      rw [List.cons_append, List.length_cons, Nat.add_right_comm, occursAt_cons_succ_iff, ih]

theorem OccursAt.le_length
    (h : OccursAt t cs i) :
    i + t.length ≤ cs.length := by
  obtain ⟨before, after, rfl, rfl⟩ := h
  rw [List.length_append, List.length_append]
  exact Nat.le_add_right _ _

theorem occursAt_nil_iff :
    OccursAt t [] i ↔ i = 0 ∧ t = [] := by
  constructor
  · intro h
    have hlength := h.le_length
    rw [List.length_nil] at hlength
    exact ⟨by omega, List.eq_nil_of_length_eq_zero (by omega)⟩
  · rintro ⟨rfl, rfl⟩
    exact ⟨[], [], rfl, rfl⟩

theorem occursAt_iff_take :
    OccursAt t cs i ↔ i ≤ cs.length ∧ (cs.drop i).take t.length = t := by
  constructor
  · intro h
    refine ⟨Nat.le_of_add_right_le h.le_length, ?_⟩
    obtain ⟨before, after, rfl, rfl⟩ := h
    rw [List.append_assoc, List.drop_left, List.take_left]
  · rintro ⟨hi, ht⟩
    refine ⟨cs.take i, (cs.drop i).drop t.length, ?_, List.length_take_of_le hi⟩
    have hrest := List.take_append_drop t.length (cs.drop i)
    rw [ht] at hrest
    rw [List.append_assoc, hrest, List.take_append_drop]

/-! ### Searches -/

theorem indexFrom?_eq_none_iff :
    indexFrom? t n cs = none ↔ ∀ i, ¬ OccursAt t cs i := by
  induction cs generalizing n with
  | nil =>
      simp [indexFrom?, occursAt_nil_iff]
  | cons c cs ih =>
      rw [indexFrom?, ← Nat.and_forall_add_one, occursAt_zero_iff, ← List.isPrefixOf_iff_prefix]
      simp only [occursAt_cons_succ_iff]
      split
      · next hhere =>
          simp [hhere]
      · next hhere =>
          rw [ih]
          simp [hhere]

/-- What a search finds is the first place. -/
theorem isLeast_of_indexFrom?
    (h : indexFrom? t n cs = some k) :
    ∃ i, k = n + i ∧ IsLeast {j | OccursAt t cs j} i := by
  induction cs generalizing n with
  | nil =>
      rw [indexFrom?] at h
      split at h
      · next ht =>
          cases h
          exact ⟨0, rfl, occursAt_nil_iff.mpr ⟨rfl, List.isEmpty_iff.mp ht⟩, fun j _ => j.zero_le⟩
      · cases h
  | cons c cs ih =>
      rw [indexFrom?] at h
      split at h
      · next hhere =>
          cases h
          exact ⟨0, rfl, occursAt_zero_iff.mpr (List.isPrefixOf_iff_prefix.mp hhere),
            fun j _ => j.zero_le⟩
      · next hhere =>
          obtain ⟨i, rfl, hi, hleast⟩ := ih h
          refine ⟨i + 1, by omega, occursAt_cons_succ_iff.mpr hi, fun j hj => ?_⟩
          cases j with
          | zero =>
              exact absurd (List.isPrefixOf_iff_prefix.mpr (occursAt_zero_iff.mp hj)) hhere
          | succ j =>
              exact Nat.succ_le_succ (hleast (occursAt_cons_succ_iff.mp hj))

/-- A search from the other end finds the last place, or what it had found before. -/
theorem isGreatest_of_lastIndexFrom? {found : Option Nat} :
    (∃ i, lastIndexFrom? t n found cs = some (n + i) ∧ IsGreatest {j | OccursAt t cs j} i) ∨
      lastIndexFrom? t n found cs = found ∧ ∀ i, ¬ OccursAt t cs i := by
  induction cs generalizing n found with
  | nil =>
      rw [lastIndexFrom?]
      split
      · next ht =>
          refine .inl ⟨0, rfl, occursAt_nil_iff.mpr ⟨rfl, List.isEmpty_iff.mp ht⟩, fun j hj => ?_⟩
          exact (occursAt_nil_iff.mp hj).1.le
      · next ht =>
          exact .inr ⟨rfl, fun i hi => ht (List.isEmpty_iff.mpr (occursAt_nil_iff.mp hi).2)⟩
  | cons c cs ih =>
      rw [lastIndexFrom?]
      have hhere : t.isPrefixOf (c :: cs) ↔ OccursAt t (c :: cs) 0 :=
        List.isPrefixOf_iff_prefix.trans occursAt_zero_iff.symm
      obtain ⟨i, heq, hi, hgreatest⟩ | ⟨heq, hnone⟩ :=
        @ih (n + 1) (if t.isPrefixOf (c :: cs) then some n else found)
      · refine .inl ⟨i + 1, by rw [heq, Nat.add_right_comm, Nat.add_assoc],
          occursAt_cons_succ_iff.mpr hi, fun j hj => ?_⟩
        cases j with
        | zero =>
            exact Nat.zero_le _
        | succ j =>
            exact Nat.succ_le_succ (hgreatest (occursAt_cons_succ_iff.mp hj))
      · rw [heq]
        split
        · next h =>
            refine .inl ⟨0, rfl, hhere.mp h, fun j hj => ?_⟩
            cases j with
            | zero =>
                exact Nat.le_refl _
            | succ j =>
                exact absurd (occursAt_cons_succ_iff.mp hj) (hnone j)
        · next h =>
            refine .inr ⟨rfl, fun i hi => ?_⟩
            cases i with
            | zero =>
                exact h (hhere.mpr hi)
            | succ i =>
                exact hnone i (occursAt_cons_succ_iff.mp hi)

/-! ### Pieces -/

/-- How characters fall into pieces when the occurrences of others are cut out from left to right: each
piece but the last goes up to where these occur first. -/
inductive Cuts (t : List Char) : List Char → List (List Char) → Prop
  | whole {cs : List Char} (hnone : ∀ i, ¬ OccursAt t cs i) : Cuts t cs [cs]
  | cut {p cs : List Char} {ps : List (List Char)}
      (hfirst : ∀ i < p.length, ¬ OccursAt t (p ++ t ++ cs) i) (hrest : Cuts t cs ps) :
      Cuts t (p ++ t ++ cs) (p :: ps)

/-- The places where characters occur among others, read on from a place: each is the first one that
does not overlap the one before. -/
inductive MetFrom (t cs : List Char) : Nat → List Nat → Prop
  | done {start : Nat} (hnone : ∀ i, start ≤ i → ¬ OccursAt t cs i) : MetFrom t cs start []
  | next {start i : Nat} {places : List Nat} (hstart : start ≤ i) (hi : OccursAt t cs i)
      (hfirst : ∀ j, start ≤ j → j < i → ¬ OccursAt t cs j)
      (hrest : MetFrom t cs (i + t.length) places) : MetFrom t cs start (i :: places)

/-- There is one way to read on from a place. -/
theorem MetFrom.unique {start : Nat} {places others : List Nat}
    (h : MetFrom t cs start places) (h' : MetFrom t cs start others) :
    others = places := by
  induction h generalizing others with
  | done hnone =>
      cases h' with
      | done =>
          rfl
      | next hstart hi =>
          exact absurd hi (hnone _ hstart)
  | @next start i places hstart hi hfirst hrest ih =>
      cases h' with
      | done hnone =>
          exact absurd hi (hnone i hstart)
      | @next _ j others hstart' hj hfirst' hrest' =>
          obtain hlt | rfl | hlt := Nat.lt_trichotomy i j
          · exact absurd hi (hfirst' i hstart hlt)
          · rw [ih hrest']
          · exact absurd hj (hfirst j hstart' hlt)

/-- The pieces are cut out from left to right.  An occurrence does not begin in the current piece. -/
theorem cuts_piecesFrom
    (ht : t ≠ []) {skip : Nat} {run : List Char}
    (hrun : ∀ i < run.length, ¬ OccursAt t (run.reverse ++ cs.drop skip) i) :
    Cuts t (run.reverse ++ cs.drop skip) (piecesFrom t skip run cs) := by
  fun_induction piecesFrom t skip run cs with
  | case1 skip run =>
      rw [List.drop_nil, List.append_nil] at hrun ⊢
      refine .whole fun i hi => ?_
      have hlength := hi.le_length
      rw [List.length_reverse] at hlength
      exact hrun i (by have := List.length_pos_of_ne_nil ht; omega) hi
  | case2 run skip c rest ih =>
      exact ih hrun
  | case3 run c rest hhere ih =>
      obtain ⟨after, hafter⟩ := List.isPrefixOf_iff_prefix.mp hhere
      have hrest : rest.drop (t.length - 1) = after := by
        have hdrop := congrArg (List.drop t.length) hafter
        rw [List.drop_left] at hdrop
        rw [hdrop, ← @List.drop_succ_cons _ c rest, Nat.sub_add_cancel (List.length_pos_of_ne_nil ht)]
      rw [List.drop_zero, ← hafter, ← List.append_assoc] at hrun ⊢
      rw [← List.length_reverse] at hrun
      rw [hrest] at ih
      exact .cut hrun (ih fun i hi => absurd hi (Nat.not_lt_zero i))
  | case4 run c rest hhere ih =>
      have heq : (c :: run).reverse ++ rest.drop 0 = run.reverse ++ (c :: rest).drop 0 := by
        simp
      rw [heq] at ih
      refine ih fun i hi hoccurs => ?_
      obtain hlt | heq := Nat.lt_succ_iff_lt_or_eq.mp hi
      · exact hrun i hlt hoccurs
      · rw [heq, ← List.length_reverse, ← Nat.add_zero run.reverse.length,
          occursAt_append_iff] at hoccurs
        exact hhere (List.isPrefixOf_iff_prefix.mpr (occursAt_zero_iff.mp hoccurs))

namespace Cuts

variable {ps : List (List Char)}

theorem intercalate_eq
    (h : Cuts t cs ps) :
    t.intercalate ps = cs := by
  induction h with
  | whole hnone =>
      exact List.intercalate_singleton
  | @cut p cs ps hfirst hrest ih =>
      cases hrest with
      | whole hnone =>
          rw [List.intercalate_cons_cons, ih]
      | cut hfirst hrest =>
          rw [List.intercalate_cons_cons, ih]

theorem separates
    (h : Cuts t cs ps) (ht : t ≠ []) :
    ∀ p ∈ ps, ¬ t <:+: p := by
  induction h with
  | whole hnone =>
      intro p hp hinfix
      rw [List.mem_singleton.mp hp] at hinfix
      obtain ⟨i, hi⟩ := exists_occursAt_iff.mpr hinfix
      exact hnone i hi
  | @cut q cs ps hfirst hrest ih =>
      refine List.forall_mem_cons.mpr ⟨fun hinfix => ?_, ih⟩
      obtain ⟨i, hi⟩ := exists_occursAt_iff.mpr hinfix
      have hlength := hi.le_length
      obtain ⟨before, after, rfl, rfl⟩ := hi
      refine hfirst before.length (by have := List.length_pos_of_ne_nil ht; omega) ?_
      exact ⟨before, after ++ t ++ cs, by simp only [List.append_assoc], rfl⟩

/-- There is one more piece than there are places. -/
theorem exists_metFrom
    (h : Cuts t cs ps) (pre : List Char) :
    ∃ places, MetFrom t (pre ++ cs) pre.length places ∧ ps.length = 1 + places.length := by
  induction h generalizing pre with
  | whole hnone =>
      refine ⟨[], .done fun i hi hoccurs => ?_, rfl⟩
      obtain ⟨i, rfl⟩ := Nat.exists_eq_add_of_le hi
      exact hnone i (occursAt_append_iff.mp hoccurs)
  | @cut p cs ps hfirst hrest ih =>
      obtain ⟨places, hplaces, hcount⟩ := ih (pre ++ p ++ t)
      rw [List.append_assoc (pre ++ p), List.append_assoc pre, ← List.append_assoc p,
        List.length_append, List.length_append] at hplaces
      refine ⟨_, .next (Nat.le_add_right _ _) ?_ (fun j hj hlt hoccurs => ?_) hplaces, ?_⟩
      · rw [occursAt_append_iff]
        exact ⟨p, cs, rfl, rfl⟩
      · obtain ⟨i, rfl⟩ := Nat.exists_eq_add_of_le hj
        exact hfirst i (by omega) (occursAt_append_iff.mp hoccurs)
      · rw [List.length_cons, List.length_cons, hcount, Nat.add_assoc]

end Cuts

/-! ### Strings -/

theorem split_of_ne_empty
    (s : String) {t : String} (ht : t ≠ "") :
    split s t = (piecesFrom t.toList 0 [] s.toList).map String.ofList :=
  if_neg fun h => ht (String.isEmpty_iff.mp h)

theorem cuts_split
    (s : String) {t : String} (ht : t ≠ "") :
    Cuts t.toList s.toList ((split s t).map String.toList) := by
  have hpieces : (split s t).map String.toList = piecesFrom t.toList 0 [] s.toList := by
    rw [split_of_ne_empty s ht, List.map_map]
    exact List.map_id'' (fun cs => String.toList_ofList) _
  have hcuts : Cuts t.toList ([].reverse ++ s.toList.drop 0) (piecesFrom t.toList 0 [] s.toList) :=
    cuts_piecesFrom (mt String.toList_eq_nil_iff.mp ht) fun i hi => absurd hi (Nat.not_lt_zero i)
  rw [hpieces]
  exact hcuts

theorem intercalate_characters
    (cs : List Char) :
    ([] : List Char).intercalate (cs.map (String.toList ∘ String.singleton)) = cs := by
  induction cs with
  | nil =>
      rfl
  | cons c cs ih =>
      cases cs with
      | nil =>
          rw [List.map_singleton, List.intercalate_singleton]
          exact String.toList_singleton c
      | cons d cs =>
          rw [List.map_cons, List.map_cons, List.intercalate_cons_cons, ← List.map_cons, ih]
          exact congrArg (· ++ [] ++ d :: cs) (String.toList_singleton c)

theorem intercalate_split
    (s t : String) :
    t.intercalate (split s t) = s := by
  rw [← String.toList_inj, String.toList_intercalate]
  by_cases ht : t = ""
  · subst ht
    show ([] : List Char).intercalate ((s.toList.map String.singleton).map String.toList) = s.toList
    rw [List.map_map]
    exact intercalate_characters s.toList
  · exact (cuts_split s ht).intercalate_eq

theorem indexOf?_cases
    (s t : String) :
    (∃ i, indexOf? s t = some i ∧ IsLeast {j | OccursAt t.toList s.toList j} i) ∨
      indexOf? s t = none ∧ ∀ i, ¬ OccursAt t.toList s.toList i := by
  cases h : indexOf? s t with
  | none =>
      exact .inr ⟨rfl, indexFrom?_eq_none_iff.mp h⟩
  | some k =>
      obtain ⟨i, rfl, hi⟩ := isLeast_of_indexFrom? h
      rw [Nat.zero_add]
      exact .inl ⟨i, rfl, hi⟩

theorem lastIndexOf?_cases
    (s t : String) :
    (∃ i, lastIndexOf? s t = some i ∧ IsGreatest {j | OccursAt t.toList s.toList j} i) ∨
      lastIndexOf? s t = none ∧ ∀ i, ¬ OccursAt t.toList s.toList i := by
  obtain ⟨i, heq, hi⟩ | hnone := @isGreatest_of_lastIndexFrom? t.toList s.toList 0 none
  · rw [Nat.zero_add] at heq
    exact .inl ⟨i, heq, hi⟩
  · exact .inr hnone

end Text

namespace Builtin

open Text (OccursAt MetFrom)

/-! ### Splitting and joining -/

theorem callMethod_split
    (E : Engine) (s t : String) (ctx : Context) (h : Heap) :
    ∃ id h', callMethod E (.str s) "split" [.str t] ctx h = .value (.array id) h' ∧
      h'.array id = ((Text.split s t).map Value.str).toArray := by
  refine ⟨_, _, rfl, ?_⟩
  rw [Heap.array, Array.getD_eq_getD_getElem?]
  exact congrArg (Option.getD · #[]) Array.getElem?_push_size

theorem callMethod_join
    {parts : List String} {id : Nat} {h : Heap}
    (hparts : h.array id = (parts.map Value.str).toArray) (n m : Nat) (t : String) (ctx : Context) :
    callMethod ⟨Eval.run (n + 1), m⟩ (.array id) "join" [.str t] ctx h =
      .value (.str (t.intercalate parts)) h := by
  have htexts : (h.array id).toList.mapM (Engine.text ⟨Eval.run (n + 1), m⟩) ctx h =
      .value parts h := by
    have hstr : ∀ v ∈ parts.map Value.str,
        Engine.text ⟨Eval.run (n + 1), m⟩ v ctx h = .value (h.display v) h := by
      intro v hv
      obtain ⟨s, -, rfl⟩ := List.mem_map.mp hv
      rfl
    rw [hparts, Heap.Makeup.mapM_value hstr, List.map_map]
    exact congrArg (Res.value · h) (List.map_id'' (fun _ => rfl) parts)
  have hjoin : callMethod ⟨Eval.run (n + 1), m⟩ (.array id) "join" [.str t] ctx h =
      ((h.array id).toList.mapM (Engine.text ⟨Eval.run (n + 1), m⟩) >>= fun texts =>
        pure (.str (t.intercalate texts)) : Eval Value) ctx h := rfl
  rw [hjoin, Eval.bind_apply, htexts]
  rfl

/-- A string that was split joins to itself again.  No piece has the separator in it, and there is one
piece more than the separator is met from left to right; the empty one parts all characters. -/
theorem split_joins
    (s t : String) (n m : Nat) (ctx : Context) (h : Heap) :
    ∃ (pieces : List String) (id : Nat) (h' : Heap),
      callMethod ⟨Eval.run (n + 1), m⟩ (.str s) "split" [.str t] ctx h = .value (.array id) h' ∧
      h'.array id = (pieces.map Value.str).toArray ∧
      callMethod ⟨Eval.run (n + 1), m⟩ (.array id) "join" [.str t] ctx h' = .value (.str s) h' ∧
      (t ≠ "" → (∀ p ∈ pieces, ¬ t.toList <:+: p.toList) ∧
        ∃ places, (∀ l, MetFrom t.toList s.toList 0 l ↔ l = places) ∧
          pieces.length = 1 + places.length) ∧
      (t = "" → pieces = s.toList.map String.singleton) := by
  obtain ⟨id, h', hsplit, hpieces⟩ := callMethod_split ⟨Eval.run (n + 1), m⟩ s t ctx h
  refine ⟨_, id, h', hsplit, hpieces, ?_, fun ht => ⟨?_, ?_⟩, ?_⟩
  · rw [callMethod_join hpieces, Text.intercalate_split]
  · have hfree := (Text.cuts_split s ht).separates (mt String.toList_eq_nil_iff.mp ht)
    exact fun p hp => hfree p.toList (List.mem_map_of_mem hp)
  · obtain ⟨places, hplaces, hcount⟩ := (Text.cuts_split s ht).exists_metFrom []
    rw [List.length_map] at hcount
    refine ⟨places, fun l => ⟨hplaces.unique, ?_⟩, hcount⟩
    rintro rfl
    exact hplaces
  · rintro rfl
    rfl

/-! ### Searching and slicing -/

/-- `s.substring(k, k + t.length())` -/
def cutAt (E : Engine) (s t : String) (k : Int64) : Eval Value := do
  let length ← callMethod E (.str t) "length" []
  let stop ← Eval.binaryOp E .add (.int k) length
  callMethod E (.str s) "substring" [.int k, stop]

/-- `s.substring(0, k) + s.substring(k)` -/
def halves (E : Engine) (s : String) (k : Int64) : Eval Value := do
  let first ← callMethod E (.str s) "substring" [.int 0, .int k]
  let second ← callMethod E (.str s) "substring" [.int k]
  Eval.binaryOp E .add first second

/-- Slicing gives a text just where the text occurs.  If its end is beyond the integers, it wraps around,
and the slice is empty. -/
theorem cutAt_eq
    (E : Engine) {s t : String} {k : Int64} (hs : s.length < 2 ^ 63) (ht : t.length < 2 ^ 63)
    (hlow : 0 ≤ k.toInt) (hhigh : k.toInt ≤ s.length) :
    ∃ u, cutAt E s t k = pure (.str u) ∧ (u = t ↔ OccursAt t.toList s.toList k.toInt.toNat) := by
  have hcut : cutAt E s t k = pure (.str (Text.slice s (clamp k 0 s.length)
      (clamp (k + Int64.ofNat t.length) (clamp k 0 s.length) s.length - clamp k 0 s.length))) := rfl
  obtain ⟨i, hi⟩ := Int.eq_ofNat_of_zero_le hlow
  have hstart : clamp k 0 s.length = i := by
    rw [clamp, hi]
    omega
  have hstop : (k + Int64.ofNat t.length).toInt = ((i : Int) + t.length).bmod (2 ^ 64) := by
    rw [Int64.toInt_add, hi, Int64.toInt_ofNat_of_lt ht]
  have hi_le : i ≤ s.toList.length := by
    rw [String.length_toList]
    omega
  rw [hcut, hstart, hi, Int.toNat_natCast]
  refine ⟨_, rfl, ?_⟩
  rw [← String.toList_inj, Text.slice, String.toList_ofList, clamp, hstop]
  by_cases hword : i + t.length < 2 ^ 63
  · have htake : (s.toList.drop i).take (max i (min (i + t.length) s.length) - i) =
        (s.toList.drop i).take t.toList.length := by
      rw [List.take_eq_take_iff, List.length_drop, String.length_toList, String.length_toList]
      omega
    rw [Int.bmod_eq_of_le (by omega) (by omega), ← Int.natCast_add, Int.toNat_natCast, htake,
      Text.occursAt_iff_take, and_iff_right hi_le]
  · have hnegative : ((i : Int) + t.length).bmod (2 ^ 64) = i + t.length - 2 ^ 64 := by
      rw [Int.bmod_def]
      omega
    have hempty : max i (min ((i : Int) + t.length - 2 ^ 64).toNat s.length) - i = 0 := by
      omega
    rw [hnegative, hempty, List.take_zero]
    constructor
    · intro ht'
      have hlength := congrArg List.length ht'
      rw [List.length_nil, String.length_toList] at hlength
      omega
    · intro hoccurs
      have hlength := hoccurs.le_length
      rw [String.length_toList, String.length_toList] at hlength
      omega

theorem cutAt_of_occursAt
    (E : Engine) {s t : String} {i : Nat} (hs : s.length < 2 ^ 63)
    (hi : OccursAt t.toList s.toList i) :
    cutAt E s t (Int64.ofNat i) = pure (.str t) := by
  have hlength := hi.le_length
  rw [String.length_toList, String.length_toList] at hlength
  have hword : (Int64.ofNat i).toInt = i := Int64.toInt_ofNat_of_lt (by omega)
  obtain ⟨u, hcut, hiff⟩ := cutAt_eq E (k := Int64.ofNat i) hs (t := t) (by omega)
    (by omega) (by omega)
  rw [hword, Int.toNat_natCast] at hiff
  rw [hcut, hiff.mpr hi]

theorem cutAt_of_not_occursAt
    (E : Engine) {s t : String} {k : Int64} (hs : s.length < 2 ^ 63) (ht : t.length < 2 ^ 63)
    (hlow : 0 ≤ k.toInt) (hhigh : k.toInt ≤ s.length)
    (hnot : ¬ OccursAt t.toList s.toList k.toInt.toNat) :
    ∃ u, cutAt E s t k = pure (.str u) ∧ u ≠ t := by
  obtain ⟨u, hcut, hiff⟩ := cutAt_eq E hs ht hlow hhigh
  exact ⟨u, hcut, mt hiff.mp hnot⟩

theorem callMethod_indexOf
    (E : Engine) (s t : String) :
    callMethod E (.str s) "indexOf" [.str t] = pure (place (Text.indexOf? s t)) := rfl

theorem callMethod_contains
    (E : Engine) (s t : String) :
    callMethod E (.str s) "contains" [.str t] = pure (.bool (Text.contains s t)) := rfl

theorem callMethod_lastIndexOf
    (E : Engine) (s t : String) :
    callMethod E (.str s) "lastIndexOf" [.str t] = pure (place (Text.lastIndexOf? s t)) := rfl

/-- The two parts of a string before and after a place are the whole, wherever that place is. -/
theorem halves_eq
    (s : String) (k : Int64) (n m : Nat) (ctx : Context) (h : Heap) :
    halves ⟨Eval.run (n + 1), m⟩ s k ctx h = .value (.str s) h := by
  have hhalves : halves ⟨Eval.run (n + 1), m⟩ s k ctx h =
      .value (.str (Text.slice s 0 (clamp k 0 s.length) ++
        Text.slice s (clamp k 0 s.length) (s.length - clamp k 0 s.length))) h := rfl
  have hwhole : Text.slice s 0 (clamp k 0 s.length) ++
      Text.slice s (clamp k 0 s.length) (s.length - clamp k 0 s.length) = s := by
    rw [← String.toList_inj, String.toList_append, Text.slice, Text.slice, String.toList_ofList,
      String.toList_ofList, List.drop_zero, ← String.length_toList, ← List.length_drop,
      List.take_length, List.take_append_drop]
  rw [hhalves, hwhole]

/-- Searches and slices count characters alike.  Where a search finds a text, slicing gives the text,
and it does not for any place before the first or after the last; a search answers `-1` just if the
string does not contain the text.  A string is two parts joined, wherever it is parted.  (No string has
so many characters that they cannot be counted: it would not fit into the memory.) -/
theorem searches_and_slices_agree
    (s t : String) (hs : s.length < 2 ^ 63) (n m : Nat) :
    let E : Engine := ⟨Eval.run (n + 1), m⟩
    (∃ (found : Bool) (first last length : Int64),
      callMethod E (.str s) "contains" [.str t] = pure (.bool found) ∧
      callMethod E (.str s) "indexOf" [.str t] = pure (.int first) ∧
      callMethod E (.str s) "lastIndexOf" [.str t] = pure (.int last) ∧
      callMethod E (.str s) "length" [] = pure (.int length) ∧
      (first = -1 ↔ found = false) ∧ (last = -1 ↔ found = false) ∧ -1 ≤ first ∧ -1 ≤ last ∧
      (0 ≤ first → cutAt E s t first = pure (.str t) ∧
        ∀ k, 0 ≤ k → k < first → ∃ u, cutAt E s t k = pure (.str u) ∧ u ≠ t) ∧
      (0 ≤ last → cutAt E s t last = pure (.str t) ∧
        ∀ k, last < k → k ≤ length → ∃ u, cutAt E s t k = pure (.str u) ∧ u ≠ t)) ∧
    ∀ (k : Int64) (ctx : Context) (h : Heap), halves E s k ctx h = .value (.str s) h := by
  intro E
  refine ⟨⟨(Text.indexOf? s t).isSome, ?_⟩, fun k ctx h => halves_eq s k n m ctx h⟩
  rw [callMethod_indexOf, callMethod_lastIndexOf]
  have hzero : (0 : Int64).toInt = 0 := rfl
  have hminus : (-1 : Int64).toInt = -1 := rfl
  have hcount : (Int64.ofNat s.length).toInt = s.length := Int64.toInt_ofNat_of_lt hs
  obtain ⟨i, hfirst, hi, hleast⟩ | ⟨hfirst, hnone⟩ := Text.indexOf?_cases s t <;>
    obtain ⟨j, hlast, hj, hgreatest⟩ | ⟨hlast, hnone'⟩ := Text.lastIndexOf?_cases s t
  · have hi_le := hi.le_length
    have hj_le := hj.le_length
    rw [String.length_toList, String.length_toList] at hi_le hj_le
    have hiword : (Int64.ofNat i).toInt = i := Int64.toInt_ofNat_of_lt (by omega)
    have hjword : (Int64.ofNat j).toInt = j := Int64.toInt_ofNat_of_lt (by omega)
    rw [hfirst, hlast]
    refine ⟨.ofNat i, .ofNat j, .ofNat s.length, ?_, rfl, rfl, rfl, ?_, ?_, ?_, ?_,
      fun _ => ⟨cutAt_of_occursAt E hs hi, fun k hlow hlt => ?_⟩,
      fun _ => ⟨cutAt_of_occursAt E hs hj, fun k hlt hhigh => ?_⟩⟩
    · rw [callMethod_contains, Text.contains, hfirst]
    · simp [← Int64.toInt_inj, hiword]
    · simp [← Int64.toInt_inj, hjword]
    · rw [Int64.le_iff_toInt_le]
      omega
    · rw [Int64.le_iff_toInt_le]
      omega
    · rw [Int64.le_iff_toInt_le] at hlow
      rw [Int64.lt_iff_toInt_lt] at hlt
      refine cutAt_of_not_occursAt E hs (by omega) (by omega) (by omega) fun hk => ?_
      have hle := hleast hk
      omega
    · rw [Int64.lt_iff_toInt_lt] at hlt
      rw [Int64.le_iff_toInt_le] at hhigh
      refine cutAt_of_not_occursAt E hs (by omega) (by omega) (by omega) fun hk => ?_
      have hle := hgreatest hk
      omega
  · exact absurd hi (hnone' i)
  · exact absurd hj (hnone j)
  · rw [hfirst, hlast]
    have hnegative : ¬ (0 : Int64) ≤ -1 := by decide
    refine ⟨-1, -1, .ofNat s.length, ?_, rfl, rfl, rfl, ?_, ?_, Int64.le_refl _, Int64.le_refl _,
      fun h => absurd h hnegative, fun h => absurd h hnegative⟩
    · rw [callMethod_contains, Text.contains, hfirst]
    · simp
    · simp

theorem searches_and_slices_agree_accented :
    "héllo".length < 2 ^ 63 ∧
      callMethod ⟨Eval.run 1, 0⟩ (.str "héllo") "lastIndexOf" [.str "l"] = pure (.int 3) ∧
      cutAt ⟨Eval.run 1, 0⟩ "héllo" "l" 3 = pure (.str "l") ∧
      ∃ u, cutAt ⟨Eval.run 1, 0⟩ "héllo" "l" 4 = pure (.str u) ∧ u ≠ "l" := by
  have hs : "héllo".length < 2 ^ 63 := by decide
  obtain ⟨⟨found, first, last, length, -, -, hlast, hlength, -, -, -, -, -, hends⟩, -⟩ :=
    searches_and_slices_agree "héllo" "l" hs 0 0
  cases congrFun (congrFun hlast ⟨0, 0, none⟩) default
  cases congrFun (congrFun hlength ⟨0, 0, none⟩) default
  obtain ⟨hcut, hother⟩ := hends (by decide)
  exact ⟨hs, hlast, hcut, hother 4 (by decide) (by decide)⟩

end Builtin
end ScriptEngine
