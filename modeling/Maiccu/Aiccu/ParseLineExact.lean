import Maiccu.Aiccu.ParseLine

/-!
# Lines that are read as they are meant

`described` is what a line should do: the field of the rule with that very title is set to the value
without the blanks and one pair of quotes around it, and a line with an unknown title is reported.
-/

namespace Maiccu.Aiccu

open Maiccu.Lib Option Function
open List hiding after

/-! ## What a line should do -/

def unquote : List UInt8 → List UInt8
  | [] => []
  | q :: m => if (q = 34 ∨ q = 39) ∧ m.getLast? = some q then m.dropLast else q :: m

def skipBlanks (s : List UInt8) : List UInt8 := s.dropWhile fun c => decide (c = 32 ∨ c = 9)

section Described

variable {F : Type} [DecidableEq F] {kind : F → PlRuletype}

def described (inet : Inet) (sep : Separator) (rules : List (PlRule F)) (line : List UInt8)
    (data : Record F kind) : Bool × Record F kind :=
  if Ignored (chop line) then (true, data) else
  match cutAt sep.text line with
  | none => (false, data)
  | some (key, value) =>
    match rules.find? fun r => decide (r.title = key) with
    | none => (false, data)
    | some r => (true, r.store inet (unquote (skipBlanks (chop value))) data)

end Described

/-! ## The condition -/

def Plain : Separator → List UInt8 → Prop
  | .blank, w => (∀ c ∈ w.head?, c ≠ 32 ∧ c ≠ 9) ∧
      ∀ q m, w = q :: m → q = 34 ∨ q = 39 → ∃ m', m = m' ++ [q] ∧ q ∉ m'
  | .colon, w => (∀ c ∈ w.head?, c ≠ 32 ∧ c ≠ 9) ∧
      ∀ q m, w = q :: m → q = 34 ∨ q = 39 → m.getLast? ≠ some q

def usedKey (sep : Separator) (t : List UInt8) : List UInt8 :=
  match cutAt sep.text t with
  | some (key, _) => key
  | none => t.dropLast

/-- The first title that the text compared starts with is the text before the separator, if there is
one of them, and then the value is a plain one. -/
structure Exact (sep : Separator) (titles : List (List UInt8)) (line : List UInt8) : Prop where
  title : titles.find? (fun τ => decide (τ <+: usedKey sep (chop line))) =
    titles.find? fun τ => decide ((cutAt sep.text line).map Prod.fst = some τ)
  value : ∀ key w, cutAt sep.text (chop line) = some (key, w) → key ∈ titles → Plain sep w

variable {m : List UInt8} {sep : Separator}

theorem plain_cons {c : UInt8} (hblank : c ≠ 32 ∧ c ≠ 9) (hquote : ¬ (c = 34 ∨ c = 39)) :
    Plain sep (c :: m) := by
  have hhead : ∀ x ∈ (c :: m).head?, x ≠ 32 ∧ x ≠ 9 := by
    rintro x ⟨⟩
    exact hblank
  cases sep with
  | blank | colon =>
    refine ⟨hhead, ?_⟩
    rintro q m' ⟨⟩ hq
    exact absurd hq hquote

variable {titles : List (List UInt8)}

/-! ## Values -/

section Values

variable {w v z : List UInt8}

theorem length_unquote_le (v : List UInt8) : (unquote v).length ≤ v.length := by
  unfold unquote
  split
  · exact le_rfl
  · split_ifs
    · simp
      omega
    · exact le_rfl

theorem openQuote_of_not_quote {q : UInt8} (h : ¬ (q = 34 ∨ q = 39)) :
    openQuote (q :: m) = q :: m := if_neg h

theorem value_ne_of_blank {c : UInt8} (hc : c = 32 ∨ c = 9) :
    sep.value (c :: m) ≠ unquote (skipBlanks (c :: m)) := by
  have hvalue : sep.value (c :: m) = c :: m := by
    cases sep with
    | blank => exact openQuote_of_not_quote (by rcases hc with rfl | rfl <;> decide)
    | colon => rfl
  have hskip : skipBlanks (c :: m) = skipBlanks m := dropWhile_cons_of_pos (decide_eq_true hc)
  have hlen : (unquote (skipBlanks m)).length ≤ m.length :=
    (length_unquote_le _).trans (dropWhile_suffix _).length_le
  rw [hvalue, hskip]
  intro heq
  rw [← heq, length_cons] at hlen
  omega

theorem openQuote_eq_unquote_iff {q : UInt8} (hq : q = 34 ∨ q = 39) :
    openQuote (q :: m) = unquote (q :: m) ↔ ∃ m', m = m' ++ [q] ∧ q ∉ m' := by
  have hopen : openQuote (q :: m) = m.takeWhile fun c => decide (c ≠ q) := if_pos hq
  rw [hopen, unquote]
  split_ifs with hlast
  · obtain ⟨m', rfl⟩ : ∃ m', m = m' ++ [q] := getLast?_eq_some_iff.mp hlast.2
    rw [dropLast_concat, takeWhile_append_cons (by simp), takeWhile_eq_self_iff]
    constructor
    · intro h
      exact ⟨m', rfl, fun hmem => absurd rfl (of_decide_eq_true (h q hmem))⟩
    · rintro ⟨m'', heq, hnot⟩ c hc
      obtain rfl := append_cancel_right heq
      exact decide_eq_true fun h => hnot (h ▸ hc)
  · refine iff_of_false (fun heq => ?_) ?_
    · have hle : (m.takeWhile fun c => decide (c ≠ q)).length ≤ m.length :=
        (List.takeWhile_prefix _).length_le
      rw [heq, length_cons] at hle
      omega
    · rintro ⟨m', rfl, -⟩
      exact hlast ⟨hq, getLast?_concat⟩

theorem value_eq_iff (hw : w ≠ []) : sep.value w = unquote (skipBlanks w) ↔ Plain sep w := by
  obtain ⟨c, m, rfl⟩ := exists_cons_of_ne_nil hw
  by_cases hc : c = 32 ∨ c = 9
  · refine iff_of_false (value_ne_of_blank hc) fun hplain => ?_
    have hne : c ≠ 32 ∧ c ≠ 9 := by
      cases sep with
      | blank | colon => exact hplain.1 c rfl
    exact hc.elim hne.1 hne.2
  have hskip : skipBlanks (c :: m) = c :: m := dropWhile_cons_of_neg (by simpa using hc)
  have hhead : ∀ x ∈ (c :: m).head?, x ≠ 32 ∧ x ≠ 9 := by
    intro x hx
    cases hx
    exact not_or.mp hc
  rw [hskip]
  cases sep with
  | blank =>
    by_cases hq : c = 34 ∨ c = 39
    · refine (openQuote_eq_unquote_iff hq).trans ⟨fun h => ⟨hhead, ?_⟩, fun h => h.2 c m rfl hq⟩
      intro q m' heq _
      cases heq
      exact h
    · refine iff_of_true ?_ (plain_cons (not_or.mp hc) hq)
      rw [unquote, if_neg fun h => hq h.1]
      exact openQuote_of_not_quote hq
  | colon =>
    show c :: m = unquote (c :: m) ↔ _
    rw [unquote]
    split_ifs with hlast
    · refine iff_of_false (fun heq => ?_) fun h => h.2 c m rfl hlast.1 hlast.2
      have := congrArg length heq
      simp at this
      omega
    · refine iff_of_true rfl ⟨hhead, ?_⟩
      intro q m' heq hq hl
      cases heq
      exact hlast ⟨hq, hl⟩

end Values

/-! ## Lines -/

section Lines

variable {line key k w after : List UInt8}

theorem exists_chop_append (line : List UInt8) :
    ∃ z, line = chop line ++ z ∧ ∀ c ∈ z, isBlank c = true :=
  ⟨line.rtakeWhile isBlank, rdropWhile_append_rtakeWhile.symm,
    fun _ hc => mem_rtakeWhile_imp hc⟩

theorem cutAt_of_cutAt_chop (h : cutAt sep.text (chop line) = some (k, w)) :
    ∃ after, cutAt sep.text line = some (k, after) ∧ chop after = w := by
  obtain ⟨z, hz, hblank⟩ := exists_chop_append line
  refine ⟨w ++ z, ?_, ?_⟩
  · nth_rewrite 1 [hz]
    exact cutAt_append h z
  · unfold chop
    rw [rdropWhile_append_of_forall hblank]
    exact (chop_eq_self_of_cutAt h).2

theorem blank_of_cutAt_chop_none (hnone : cutAt sep.text (chop line) = none)
    (h : cutAt sep.text line = some (key, after)) :
    (∀ c ∈ after, isBlank c = true) ∧ (chop line).length < key.length + sep.text.length ∧
      (chop line).length < line.length := by
  obtain ⟨z, hz, hblank⟩ := exists_chop_append line
  have heq := eq_append_of_cutAt h
  rw [← append_assoc] at heq
  have hlt : (chop line).length < key.length + sep.text.length := by
    by_contra hle
    have hpre : key ++ sep.text <+: chop line := by
      refine prefix_of_prefix_length_le ⟨after, heq.symm⟩ ⟨z, hz.symm⟩ ?_
      rw [length_append]
      omega
    obtain ⟨t, ht⟩ := hpre
    exact cutAt_eq_none_iff.mp hnone ⟨key, t, ht⟩
  refine ⟨fun c hc => hblank c ?_, hlt, ?_⟩
  · have hafter : after = line.drop (key ++ sep.text).length := by
      nth_rewrite 1 [heq]
      rw [drop_left]
    have hdrop : line.drop (chop line).length = z := by
      nth_rewrite 2 [hz]
      rw [drop_left]
    rw [hafter] at hc
    rw [← hdrop]
    refine (drop_suffix_drop_left line ?_).subset hc
    rw [length_append]
    omega
  · have := congrArg length heq
    simp only [length_append] at this
    omega

theorem endValue_of_chopped {b : LineBuf} (h : (chop b.line).length < b.line.length) :
    b.endValue sep = some [] := by
  cases sep with
  | blank => rfl
  | colon =>
    obtain ⟨n, hn⟩ : ∃ n, b.line.length - (chop b.line).length = n + 1 :=
      Nat.exists_eq_succ_of_ne_zero (by omega)
    unfold LineBuf.endValue LineBuf.behind
    rw [hn, replicate_succ]
    cases n with
    | zero | succ n => exact stringAt_append (a := [0]) (s := []) not_mem_nil rfl

end Lines

/-! ## The theorem -/

/-- The text that the code takes for the value of a line. -/
def takenValue (sep : Separator) (b : LineBuf) : Option (List UInt8) :=
  match cutAt sep.text (chop b.line) with
  | some (_, w) => some (sep.value w)
  | none => b.endValue sep

theorem decide_key_eq {α : Type} {line key after : List UInt8}
    (h : cutAt sep.text line = some (key, after)) (title : α → List UInt8) :
    (fun x => decide ((cutAt sep.text line).map Prod.fst = some (title x))) =
      fun x => decide (title x = key) := by
  funext x
  simp [h, eq_comm]

section Exactness

variable {F : Type} [DecidableEq F] {kind : F → PlRuletype} {inet : Inet} {rules : List (PlRule F)}
  {b : LineBuf} {data : Record F kind}

theorem parseline_taken (hi : ¬ Ignored (chop b.line)) :
    (parseline inet sep.text rules b data).map (fun r => (r.ret, r.data)) =
      match rules.find? fun r => decide (r.title <+: usedKey sep (chop b.line)) with
      | none => some (false, data)
      | some r => (takenValue sep b).map fun v => (true, r.store inet v data) := by
  unfold usedKey takenValue
  cases h : cutAt sep.text (chop b.line) with
  | some kw =>
    rw [parseline_of_cutAt hi h]
    cases rules.find? fun r => decide (r.title <+: kw.1) with
    | none | some r => rfl
  | none =>
    rw [parseline_of_cutAt_none hi h]
    cases rules.find? fun r => decide (r.title <+: (chop b.line).dropLast) with
    | none => rfl
    | some r => exact map_map _ _ _

theorem takenValue_of_exact (he : Exact sep titles b.line) {key after : List UInt8}
    (h : cutAt sep.text b.line = some (key, after)) (hkey : key ∈ titles) :
    takenValue sep b = some (unquote (skipBlanks (chop after))) := by
  unfold takenValue
  cases hcut : cutAt sep.text (chop b.line) with
  | some kw =>
    obtain ⟨after', hcut', hchop⟩ := cutAt_of_cutAt_chop hcut
    cases h.symm.trans hcut'
    have hvalue := (value_eq_iff (chop_eq_self_of_cutAt hcut).1).mpr (he.value _ _ hcut hkey)
    rw [hchop, ← hvalue]
  | none =>
    obtain ⟨hblank, -, hchopped⟩ := blank_of_cutAt_chop_none hcut h
    have hnil : chop after = [] := rdropWhile_eq_nil_iff.mpr hblank
    rw [hnil]
    exact endValue_of_chopped hchopped

theorem parseline_of_exact (h : Ignored (chop b.line) ∨ Exact sep (rules.map PlRule.title) b.line) :
    (parseline inet sep.text rules b data).map (fun r => (r.ret, r.data)) =
      some (described inet sep rules b.line data) := by
  unfold described
  by_cases hi : Ignored (chop b.line)
  · rw [parseline_of_ignored hi, if_pos hi]
    rfl
  · have he := h.resolve_left hi
    rw [parseline_taken hi, find?_eq_of_map_find? he.title, if_neg hi]
    cases hcut : cutAt sep.text b.line with
    | none => rw [find?_eq_none.mpr (by simp)]
    | some ka =>
      rw [← hcut, decide_key_eq hcut, hcut]
      dsimp only
      cases hr : rules.find? fun r => decide (r.title = ka.1) with
      | none => rfl
      | some r =>
        have htitle : r.title = ka.1 := by simpa using find?_some hr
        rw [takenValue_of_exact he hcut
          (htitle ▸ mem_map_of_mem (mem_of_find?_eq_some hr))]
        rfl

end Exactness

/-! ## Tables of strings -/

section Strings

variable {b : LineBuf} {k w : List UInt8}

def stringRules (titles : List (List UInt8)) : List (PlRule (List UInt8)) :=
  titles.map fun τ => ⟨τ, τ⟩

theorem map_title_stringRules : (stringRules titles).map PlRule.title = titles := by
  unfold stringRules
  rw [List.map_map]
  exact map_id titles

theorem find?_stringRules (p : List UInt8 → Bool) :
    (stringRules titles).find? (fun r => p r.title) =
      (titles.find? p).map fun τ => ⟨τ, τ⟩ := by
  unfold stringRules
  rw [find?_map]
  rfl

def unsetStrings : Record (List UInt8) fun _ => .string := fun _ => none

def noInet : Inet := ⟨fun _ => none, fun _ => none, fun _ => []⟩

theorem eq_of_update_unset {τ τ' v v' : List UInt8}
    (h : update unsetStrings τ (some v) = update unsetStrings τ' (some v')) :
    τ = τ' ∧ v = v' := by
  have hv : update unsetStrings τ' (some v') τ = some v :=
    (congrFun h τ).symm.trans (update_self τ _ unsetStrings)
  by_cases heq : τ = τ'
  · subst heq
    have hv' := (update_self τ _ unsetStrings).symm.trans hv
    exact ⟨rfl, (some.inj hv').symm⟩
  · cases (update_of_ne heq _ unsetStrings).symm.trans hv

/-- The outcome of `parseline` for such a table, in terms of the title and the value taken. -/
def outcome (r : Option (List UInt8 × List UInt8)) : Bool × Record (List UInt8) fun _ => .string :=
  match r with
  | none => (false, unsetStrings)
  | some (τ, v) => (true, update unsetStrings τ (some v))

theorem outcome_injective : Injective outcome := by
  intro r r' h
  rcases r with _ | ⟨τ, v⟩ <;> rcases r' with _ | ⟨τ', v'⟩
  · rfl
  · cases congrArg Prod.fst h
  · cases congrArg Prod.fst h
  · obtain ⟨rfl, rfl⟩ := eq_of_update_unset (congrArg Prod.snd h)
    rfl

/-- The title and the value that the code takes, if the line is not ignored. -/
def taken (sep : Separator) (titles : List (List UInt8)) (b : LineBuf) :
    Option (Option (List UInt8 × List UInt8)) :=
  match titles.find? fun τ => decide (τ <+: usedKey sep (chop b.line)) with
  | none => some none
  | some τ => (takenValue sep b).map fun v => some (τ, v)

theorem parseline_stringRules (hi : ¬ Ignored (chop b.line)) :
    (parseline noInet sep.text (stringRules titles) b unsetStrings).map
        (fun r => (r.ret, r.data)) = (taken sep titles b).map outcome := by
  rw [parseline_taken hi, find?_stringRules (fun τ => decide (τ <+: usedKey sep (chop b.line)))]
  unfold taken
  cases titles.find? fun τ => decide (τ <+: usedKey sep (chop b.line)) with
  | none => rfl
  | some τ =>
    cases takenValue sep b with
    | none | some v => rfl

def meant (sep : Separator) (titles : List (List UInt8)) (line : List UInt8) :
    Option (List UInt8 × List UInt8) :=
  match cutAt sep.text line with
  | none => none
  | some (key, after) =>
    (titles.find? fun τ => decide (τ = key)).map fun τ => (τ, unquote (skipBlanks (chop after)))

theorem described_stringRules (hi : ¬ Ignored (chop b.line)) :
    described noInet sep (stringRules titles) b.line unsetStrings =
      outcome (meant sep titles b.line) := by
  unfold meant described
  rw [if_neg hi]
  cases cutAt sep.text b.line with
  | none => rfl
  | some ka =>
    dsimp only
    rw [find?_stringRules (fun τ => decide (τ = ka.1))]
    cases titles.find? fun τ => decide (τ = ka.1) with
    | none | some τ => rfl

theorem map_fst_meant {line : List UInt8} : (meant sep titles line).map Prod.fst =
      titles.find? fun τ => decide ((cutAt sep.text line).map Prod.fst = some τ) := by
  unfold meant
  cases h : cutAt sep.text line with
  | none =>
    symm
    simp
  | some ka =>
    rw [← h, decide_key_eq h fun τ => τ, h, Option.map_map]
    exact map_id'

theorem map_fst_taken {r : Option (List UInt8 × List UInt8)} (h : taken sep titles b = some r) :
    r.map Prod.fst = titles.find? fun τ => decide (τ <+: usedKey sep (chop b.line)) := by
  unfold taken at h
  cases hfind : titles.find? fun τ => decide (τ <+: usedKey sep (chop b.line)) with
  | none =>
    rw [hfind] at h
    cases h
    rfl
  | some τ =>
    rw [hfind] at h
    obtain ⟨v, -, rfl⟩ := map_eq_some_iff.mp h
    rfl

theorem exact_of_taken (h : taken sep titles b = some (meant sep titles b.line)) :
    Exact sep titles b.line := by
  refine ⟨(map_fst_taken h).symm.trans map_fst_meant, ?_⟩
  intro key w hcut hkey
  obtain ⟨after, hline, hchop⟩ := cutAt_of_cutAt_chop hcut
  have hused : usedKey sep (chop b.line) = key := by
    unfold usedKey
    rw [hcut]
  obtain ⟨τ, hτ⟩ : ∃ τ, titles.find? (fun τ => decide (τ <+: key)) = some τ := by
    rw [← isSome_iff_exists, find?_isSome]
    exact ⟨key, hkey, by simp⟩
  have htaken : taken sep titles b = some (some (τ, sep.value w)) := by
    unfold taken takenValue
    rw [hused, hτ, hcut]
    rfl
  rw [htaken, some_inj] at h
  unfold meant at h
  rw [hline] at h
  obtain ⟨τ', -, heq⟩ := map_eq_some_iff.mp h.symm
  rw [Prod.mk.injEq, hchop] at heq
  exact (value_eq_iff (chop_eq_self_of_cutAt hcut).1).mp heq.2.symm

end Strings

/-- **Lines that are read as they are meant.** For every line and all titles, `parseline` does what
is described, for all tables with these titles and all data, if and only if the line is ignored or
is an exact one. -/
theorem parseline_exact_iff (sep : Separator) (titles : List (List UInt8)) (b : LineBuf) :
    (∀ (F : Type) [DecidableEq F] (kind : F → PlRuletype) (rules : List (PlRule F)),
      rules.map PlRule.title = titles → ∀ (inet : Inet) (data : Record F kind),
        (parseline inet sep.text rules b data).map (fun r => (r.ret, r.data)) =
          some (described inet sep rules b.line data)) ↔
      Ignored (chop b.line) ∨ Exact sep titles b.line := by
  constructor
  · intro h
    by_cases hi : Ignored (chop b.line)
    · exact Or.inl hi
    · have hrules := h (List UInt8) (fun _ => .string) (stringRules titles)
        map_title_stringRules noInet unsetStrings
      rw [parseline_stringRules hi, described_stringRules hi, ← map_some] at hrules
      exact Or.inr (exact_of_taken (map_injective outcome_injective hrules))
  · rintro h F _ kind rules rfl inet data
    exact parseline_of_exact h

/-- The line `usernames joe`. -/
def usernamesLine : LineBuf := ⟨ascii "usernames joe", [], by decide⟩

theorem longer_title_accepted :
    (parseline noInet Separator.blank.text (stringRules [ascii "username"]) usernamesLine
        unsetStrings).map (fun r => (r.ret, r.data (ascii "username"))) =
      some (true, some (ascii "joe")) ∧
    (described noInet .blank (stringRules [ascii "username"]) usernamesLine.line unsetStrings).1 =
      false :=
  ⟨rfl, rfl⟩

end Maiccu.Aiccu
