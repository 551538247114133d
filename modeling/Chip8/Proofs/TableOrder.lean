import Chip8.Proofs.Decode

/-!
# The order of the instruction table

The first row that accepts an opcode decodes it, so the order of the rows can matter only for an
opcode that two of them accept. There are two such opcodes, those of `CLS` and of `RET`, and the
other row is that of `SYS` for both. So the rows may stand in any order in which `CLS` and `RET`
come before `SYS`.

* `length_candidates_le`: the other opcodes have one row at most.
* `decodeWith_of_precedes`: of two rows that accept an opcode, the first decodes it.
* `decode_table_order`: the orders in which the table decodes every opcode alike.
-/

namespace Chip8.Instruction

/-- A row of the first name stands before a row of the second. -/
def Precedes (rows : List Pattern) (name name' : String) : Prop :=
  [name, name'].Sublist (rows.map Pattern.name)

instance (rows : List Pattern) (name name' : String) : Decidable (Precedes rows name name') :=
  inferInstanceAs (Decidable ([name, name'].Sublist (rows.map Pattern.name)))

variable {rows : List Pattern} {op : Word}

/-! ## Opcodes with one row -/

theorem length_filter_accepts_le (hr : rows.Pairwise Pattern.Apart) :
    (rows.filter (·.accepts op)).length ≤ 1 := by
  have hf := hr.filter (·.accepts op)
  have hacc : ∀ p ∈ rows.filter (·.accepts op), p.accepts op = true :=
    fun p hp => (List.mem_filter.mp hp).2
  generalize rows.filter (·.accepts op) = accepted at hf hacc ⊢
  match accepted with
  | [] | [_] => simp
  | p :: q :: rest =>
    have hpq := (List.pairwise_cons.mp hf).1 q List.mem_cons_self
    have hp := hacc p List.mem_cons_self
    rw [hpq.not_accepts (hacc q (List.mem_cons_of_mem p List.mem_cons_self))] at hp
    cases hp

/-- All opcodes but those of `CLS` and `RET` have one row at most. -/
theorem length_candidates_le (hcls : op ≠ 0x00E0) (hret : op ≠ 0x00EE) :
    (candidates op).length ≤ 1 := by
  have htake : (table.take 2).filter (·.accepts op) = [] := by
    rw [List.filter_eq_nil_iff]
    intro p hp ha
    rcases accepts_of_mem_take hp ha with h | h
    · exact hcls h
    · exact hret h
  rw [candidates, ← List.take_append_drop 2 table, List.filter_append, htake, List.nil_append]
  exact length_filter_accepts_le pairwise_apart_drop

/-- Which row decodes an opcode depends only on the order of the rows that accept it. -/
theorem decodeWith_eq_of_perm (h : rows.Perm table) (hop : (candidates op).length ≤ 1) :
    decodeWith rows op = decode op := by
  have hf : (rows.filter (·.accepts op)).Perm (candidates op) := h.filter _
  have heq : rows.filter (·.accepts op) = candidates op := by
    match hc : candidates op, hop with
    | [], _ => exact List.perm_nil.mp (hc ▸ hf)
    | [_], _ => exact List.perm_singleton.mp (hc ▸ hf)
  rw [decode, decodeWith, decodeWith, ← List.head?_filter, ← List.head?_filter, heq, candidates]

/-! ## Opcodes with two rows -/

/-- Of two rows that accept an opcode, the one that stands first decodes it. -/
theorem decodeWith_of_precedes {name name' : String} {i : Instruction} (h : rows.Perm table)
    (hop : (candidates op).length = 2) (hn : Precedes rows name name')
    (hfirst : ∀ p ∈ table, p.name = name → p.accepts op = true ∧ p.build op = i)
    (hsecond : ∀ q ∈ table, q.name = name' → q.accepts op = true) :
    decodeWith rows op = .ok i := by
  obtain ⟨pair, hs, hnames⟩ := List.sublist_map_iff.mp hn
  match pair, hnames with
  | [p, q], hnames =>
    simp only [List.map_cons, List.map_nil, List.cons.injEq, and_true] at hnames
    obtain ⟨hp, hi⟩ := hfirst p (h.subset (hs.subset (by simp))) hnames.1.symm
    have hq := hsecond q (h.subset (hs.subset (by simp))) hnames.2.symm
    -- the two rows are all that accept the opcode, in the order in which they stand
    have hf : [p, q].Sublist (rows.filter (·.accepts op)) := by
      simpa [hp, hq] using hs.filter (·.accepts op)
    have hl : (rows.filter (·.accepts op)).length = 2 := (h.filter _).length_eq.trans hop
    have heq := hf.eq_of_length hl.symm
    rw [decodeWith, ← List.head?_filter, ← heq]
    simp only [List.head?_cons, hi]

/-- Of two elements of a list, one stands before the other. -/
theorem pair_sublist_or {α : Type} {l : List α} {a b : α} (ha : a ∈ l) (hb : b ∈ l)
    (hab : a ≠ b) : [a, b].Sublist l ∨ [b, a].Sublist l := by
  induction l with
  | nil => cases ha
  | cons c l ih =>
    rcases List.mem_cons.mp ha with rfl | ha'
    · have hb' := (List.mem_cons.mp hb).resolve_left hab.symm
      exact .inl ((List.singleton_sublist.mpr hb').cons_cons a)
    · rcases List.mem_cons.mp hb with rfl | hb'
      · exact .inr ((List.singleton_sublist.mpr ha').cons_cons b)
      · exact (ih ha' hb').imp (.cons c) (.cons c)

theorem precedes_or_precedes (h : rows.Perm table) {name name' : String}
    (hn : name ∈ table.map Pattern.name) (hn' : name' ∈ table.map Pattern.name)
    (hne : name ≠ name') : Precedes rows name name' ∨ Precedes rows name' name :=
  pair_sublist_or ((h.map _).mem_iff.mpr hn) ((h.map _).mem_iff.mpr hn') hne

section

variable (h : rows.Perm table)

include h

theorem decodeWith_cls (hn : Precedes rows "CLS" "SYS") : decodeWith rows 0x00E0 = .ok .clear :=
  decodeWith_of_precedes h (by decide) hn (by decide) (by decide)

theorem decodeWith_ret (hn : Precedes rows "RET" "SYS") : decodeWith rows 0x00EE = .ok .ret :=
  decodeWith_of_precedes h (by decide) hn (by decide) (by decide)

theorem decodeWith_cls_of_sys (hn : Precedes rows "SYS" "CLS") :
    decodeWith rows 0x00E0 = .ok (.sys 0x00E0) :=
  decodeWith_of_precedes h (by decide) hn (by decide) (by decide)

theorem decodeWith_ret_of_sys (hn : Precedes rows "SYS" "RET") :
    decodeWith rows 0x00EE = .ok (.sys 0x00EE) :=
  decodeWith_of_precedes h (by decide) hn (by decide) (by decide)

/-- With `CLS` and `RET` before `SYS`, the order of the rows does not matter. -/
theorem decodeWith_eq_decode (hcls : Precedes rows "CLS" "SYS") (hret : Precedes rows "RET" "SYS")
    (op : Word) : decodeWith rows op = decode op := by
  by_cases h₁ : op = 0x00E0
  · rw [h₁, decodeWith_cls h hcls, decode_eq_clear_iff.mpr rfl]
  by_cases h₂ : op = 0x00EE
  · rw [h₂, decodeWith_ret h hret, decode_eq_ret_iff.mpr rfl]
  exact decodeWith_eq_of_perm h (length_candidates_le h₁ h₂)

/-- With `SYS` before `CLS` or before `RET`, the opcode of that row is decoded as `SYS`. -/
theorem decodeWith_ne_decode (hn : Precedes rows "SYS" "CLS" ∨ Precedes rows "SYS" "RET") :
    decodeWith rows 0x00E0 ≠ decode 0x00E0 ∨ decodeWith rows 0x00EE ≠ decode 0x00EE := by
  rcases hn with hn | hn
  · left
    rw [decodeWith_cls_of_sys h hn, decode_eq_clear_iff.mpr rfl]
    nofun
  · right
    rw [decodeWith_ret_of_sys h hn, decode_eq_ret_iff.mpr rfl]
    nofun

end

/-- However the rows of the table are permuted, they decode every opcode to the same instruction
or the same fault as in their given order just if the rows of `CLS` and of `RET` both stand before
that of `SYS`; and if the row of `SYS` stands before one of them, 0x00E0 or 0x00EE is decoded
differently. -/
theorem decode_table_order (h : rows.Perm table) :
    ((∀ op, decodeWith rows op = decode op) ↔
      Precedes rows "CLS" "SYS" ∧ Precedes rows "RET" "SYS") ∧
    (Precedes rows "SYS" "CLS" ∨ Precedes rows "SYS" "RET" →
      decodeWith rows 0x00E0 ≠ decode 0x00E0 ∨ decodeWith rows 0x00EE ≠ decode 0x00EE) := by
  refine ⟨⟨fun heq => ?_, fun ⟨hcls, hret⟩ => decodeWith_eq_decode h hcls hret⟩,
    decodeWith_ne_decode h⟩
  have hbefore : ¬ (Precedes rows "SYS" "CLS" ∨ Precedes rows "SYS" "RET") := fun hn =>
    (decodeWith_ne_decode h hn).elim (absurd (heq _)) (absurd (heq _))
  rw [not_or] at hbefore
  exact ⟨(precedes_or_precedes h (by decide) (by decide) (by decide)).resolve_right hbefore.1,
    (precedes_or_precedes h (by decide) (by decide) (by decide)).resolve_right hbefore.2⟩

/-- The table with its first three rows last, and the table upside down. -/
theorem decode_table_order_rotated_reversed :
    let rotated := table.drop 3 ++ table.take 3
    rotated.Perm table ∧ Precedes rotated "CLS" "SYS" ∧ Precedes rotated "RET" "SYS" ∧
      (∀ op, decodeWith rotated op = decode op) ∧
      table.reverse.Perm table ∧ Precedes table.reverse "SYS" "CLS" ∧
      (decodeWith table.reverse 0x00E0 ≠ decode 0x00E0 ∨
        decodeWith table.reverse 0x00EE ≠ decode 0x00EE) := by
  intro rotated
  have hp : rotated.Perm table := by
    have hswap : (table.drop 3 ++ table.take 3).Perm (table.take 3 ++ table.drop 3) :=
      List.perm_append_comm
    rwa [List.take_append_drop] at hswap
  have hcls : Precedes rotated "CLS" "SYS" := by decide
  have hret : Precedes rotated "RET" "SYS" := by decide
  have hp' : table.reverse.Perm table := List.reverse_perm table
  have hsys : Precedes table.reverse "SYS" "CLS" := by decide
  exact ⟨hp, hcls, hret, (decode_table_order hp).1.mpr ⟨hcls, hret⟩, hp', hsys,
    (decode_table_order hp').2 (.inl hsys)⟩

end Chip8.Instruction
