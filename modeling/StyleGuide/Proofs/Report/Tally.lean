import Mathlib.Data.List.Nodup
import StyleGuide.Report.Tally

/-! # What tallies say about violations

Counting violations one after the other comes to a table: for each code that occurs, in the order of
the texts of the codes, how often it does and the message of the violation that has it first.
-/

namespace StyleGuide

deriving instance ReflBEq, LawfulBEq for Code

namespace Code

/-- The codes in the order of their texts. -/
def all : List Code :=
  [.e101, .e111, .e112, .e113, .e201, .e202, .e203, .e211, .e221, .e222, .e223, .e224, .e225, .e231,
    .e241, .e242, .e251, .e261, .e262, .e301, .e302, .e303, .e304, .e401, .e501, .e701, .e702, .w191,
    .w291, .w292, .w293, .w391, .w601, .w602, .w603, .w604]

theorem mem_all (c : Code) : c ∈ all := by cases c <;> decide

theorem pairwise_rank : all.Pairwise (·.rank < ·.rank) := by decide

theorem pairwise_text : all.Pairwise (·.text < ·.text) := by decide +kernel

/-- A text tells its code. -/
theorem text_inj {c d : Code} : c.text = d.text ↔ c = d := by
  refine ⟨fun same => ?_, congrArg text⟩
  have ne {a b : Code} (before : a.text < b.text) : a.text ≠ b.text := by
    intro same
    rw [same] at before
    exact String.lt_irrefl _ before
  have apart : (all.map text).Nodup := List.pairwise_map.mpr (pairwise_text.imp ne)
  exact List.inj_on_of_nodup_map apart (mem_all c) (mem_all d) same

end Code

namespace Tally

/-- What is to be said about a code in some violations. -/
def of (vs : List Violation) (c : Code) : Tally :=
  ⟨c, vs.countP (·.code = c), (vs.find? (·.code = c)).elim "" Violation.message⟩

/-- The tallies of the codes out of `codes` that occur. -/
def table (codes : List Code) (vs : List Violation) : List Tally :=
  (codes.filter (· ∈ vs.map Violation.code)).map (of vs)

variable {codes : List Code} {vs : List Violation} {v : Violation} {c : Code} {ts : List Tally}

theorem of_concat_of_ne (other : v.code ≠ c) : of (vs ++ [v]) c = of vs c := by
  have none : [v].find? (·.code = c) = .none := by simp [other]
  rw [of, of, List.countP_append, List.find?_append, none, Option.or_none]
  simp [other]

theorem of_concat_of_mem (seen : v.code ∈ vs.map Violation.code) :
    of (vs ++ [v]) v.code = { of vs v.code with count := (of vs v.code).count + 1 } := by
  obtain ⟨u, hu, same⟩ := List.mem_map.mp seen
  obtain ⟨w, first⟩ : ∃ w, vs.find? (·.code = v.code) = some w :=
    Option.isSome_iff_exists.mp (List.find?_isSome.mpr ⟨u, hu, decide_eq_true same⟩)
  simp [of, first]

theorem of_concat_of_not_mem (new : v.code ∉ vs.map Violation.code) :
    of (vs ++ [v]) v.code = ⟨v.code, 1, v.message⟩ := by
  have other : ∀ u ∈ vs, u.code ≠ v.code := fun u hu same => new (List.mem_map.mpr ⟨u, hu, same⟩)
  have none : vs.find? (·.code = v.code) = .none := by simpa using other
  have count : vs.countP (·.code = v.code) = 0 := by simpa using other
  simp [of, none, count]

theorem table_cons_of_mem (seen : c ∈ vs.map Violation.code) :
    table (c :: codes) vs = of vs c :: table codes vs := by
  rw [table, List.filter_cons, if_pos (decide_eq_true seen)]
  rfl

theorem table_cons_of_not_mem (new : c ∉ vs.map Violation.code) :
    table (c :: codes) vs = table codes vs := by
  rw [table, List.filter_cons, if_neg (by simpa using new)]
  rfl

theorem table_concat_of_not_mem (other : v.code ∉ codes) :
    table codes (vs ++ [v]) = table codes vs := by
  have ne : ∀ c ∈ codes, v.code ≠ c := by
    rintro c hc rfl
    exact other hc
  rw [table, table]
  have kept : codes.filter (· ∈ (vs ++ [v]).map Violation.code) =
      codes.filter (· ∈ vs.map Violation.code) :=
    List.filter_congr fun c hc => by simp [(ne c hc).symm]
  rw [kept]
  exact List.map_congr_left fun c hc => of_concat_of_ne (ne c (List.mem_filter.mp hc).1)

theorem code_of_mem_table {t : Tally} (h : t ∈ table codes vs) : t.code ∈ codes := by
  obtain ⟨c, hc, rfl⟩ := List.mem_map.mp h
  exact (List.mem_filter.mp hc).1

/-- A code in front of all tallies gets the first place. -/
theorem add_of_forall_rank_lt (h : ∀ t ∈ ts, v.code.rank < t.code.rank) :
    add v ts = ⟨v.code, 1, v.message⟩ :: ts := by
  cases ts with
  | nil => rfl
  | cons t ts =>
      have before := h t (List.mem_cons_self ..)
      have ne : t.code ≠ v.code := fun same => by
        rw [same] at before
        exact Nat.lt_irrefl _ before
      rw [add, if_neg ne, if_pos before]

/-- One more violation is counted in its place. -/
theorem add_table (sorted : codes.Pairwise (·.rank < ·.rank)) (mem : v.code ∈ codes) :
    add v (table codes vs) = table codes (vs ++ [v]) := by
  induction codes with
  | nil => cases mem
  | cons c codes ih =>
      obtain ⟨first, sorted⟩ := List.pairwise_cons.mp sorted
      by_cases here : c = v.code
      · subst here
        have later : v.code ∉ codes := fun hv => Nat.lt_irrefl _ (first _ hv)
        have counted : v.code ∈ (vs ++ [v]).map Violation.code := by simp
        rw [table_cons_of_mem counted, table_concat_of_not_mem later]
        by_cases seen : v.code ∈ vs.map Violation.code
        · rw [table_cons_of_mem seen, of_concat_of_mem seen]
          exact if_pos rfl
        · rw [table_cons_of_not_mem seen, of_concat_of_not_mem seen]
          exact add_of_forall_rank_lt fun t ht => first _ (code_of_mem_table ht)
      · have mem : v.code ∈ codes := (List.mem_cons.mp mem).resolve_left (Ne.symm here)
        have before := Nat.lt_asymm (first _ mem)
        have ih := ih sorted mem
        by_cases seen : c ∈ vs.map Violation.code
        · have counted : c ∈ (vs ++ [v]).map Violation.code := by simp [seen]
          rw [table_cons_of_mem seen, table_cons_of_mem counted, of_concat_of_ne (Ne.symm here),
            ← ih]
          exact (if_neg here).trans (if_neg before)
        · have uncounted : c ∉ (vs ++ [v]).map Violation.code := by
            simp only [List.map_append, List.mem_append, not_or]
            exact ⟨seen, by simpa using here⟩
          rw [table_cons_of_not_mem seen, table_cons_of_not_mem uncounted, ih]

/-- The table of violations is made by counting them. -/
theorem addAll_table (vs us : List Violation) :
    addAll (table Code.all vs) us = table Code.all (vs ++ us) := by
  induction us generalizing vs with
  | nil => rw [List.append_nil]; rfl
  | cons u us ih =>
      rw [addAll, List.foldl_cons, add_table Code.pairwise_rank (Code.mem_all _), ← addAll, ih,
        List.append_assoc, List.singleton_append]

theorem table_nil : table codes [] = [] := by simp [table]

/-- A text has a tally if it is the code of some violation. -/
theorem has_table_text (vs : List Violation) (code : String) :
    has (table Code.all vs) code ↔ code ∈ vs.map fun v => v.code.text := by
  simp only [has, table, List.any_map, List.any_eq_true, List.mem_filter, decide_eq_true_eq,
    Function.comp_apply, beq_iff_eq, List.mem_map]
  constructor
  · rintro ⟨_, ⟨-, v, hv, rfl⟩, same⟩
    exact ⟨v, hv, same⟩
  · rintro ⟨v, hv, same⟩
    exact ⟨v.code, ⟨Code.mem_all _, v, hv, rfl⟩, same⟩

/-- A code has a tally if some violation has it. -/
theorem has_table (vs : List Violation) (c : Code) :
    has (table Code.all vs) c.text ↔ c ∈ vs.map Violation.code := by
  simp only [has_table_text, List.mem_map, Code.text_inj]

section Total

variable (start : String)

theorem total_cons (t : Tally) (ts : List Tally) : total start (t :: ts) =
    (if start.toList.isPrefixOf t.code.text.toList then t.count else 0) + total start ts := by
  have sum (ts : List Tally) (n : Nat) : ts.foldl (fun n t => n + t.count) n =
      n + ts.foldl (fun n t => n + t.count) 0 := by
    induction ts generalizing n with
    | nil => rfl
    | cons t ts ih =>
        rw [List.foldl_cons, List.foldl_cons, ih, ih (0 + t.count), Nat.zero_add, Nat.add_assoc]
  rw [total, total, startingWith, startingWith]
  split
  · next first => rw [List.filter_cons, if_pos first, List.foldl_cons, sum, Nat.zero_add]
  · next first => rw [List.filter_cons, if_neg first, Nat.zero_add]

/-- One more violation counts where its code starts so. -/
theorem total_add (v : Violation) (ts : List Tally) : total start (add v ts) =
    total start ts + if start.toList.isPrefixOf v.code.text.toList then 1 else 0 := by
  induction ts with
  | nil => rw [add, total_cons, Nat.add_comm]
  | cons t ts ih =>
      rw [add]
      split
      · next here =>
          rw [total_cons, total_cons, here]
          dsimp only
          split <;> omega
      · split
        · rw [total_cons, Nat.add_comm]
        · rw [total_cons, total_cons, ih, Nat.add_assoc]

theorem total_addAll (vs : List Violation) (ts : List Tally) : total start (addAll ts vs) =
    total start ts + vs.countP fun v => start.toList.isPrefixOf v.code.text.toList := by
  induction vs generalizing ts with
  | nil => rfl
  | cons v vs ih =>
      rw [addAll, List.foldl_cons, ← addAll, ih, total_add, List.countP_cons]
      omega

end Total

end Tally

end StyleGuide
