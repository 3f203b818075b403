import EmbeddedLang.Text.Quoted

/-!
Texts that can be read off the front of a longer text.

What is written without a gap is read back in one way only if no written form begins another, or if
what follows is marked off.
-/

namespace EmbeddedLang.Text

/-- What `f` writes can be told from whatever follows it. -/
def PrefixFree {α β : Type} (f : α → List β) : Prop :=
  ∀ (a b : α) (s t : List β), f a ++ s = f b ++ t → a = b ∧ s = t

theorem PrefixFree.flatMap_inj {α β : Type} {f : α → List β} (hf : PrefixFree f)
    (hne : ∀ a, f a ≠ []) {xs ys : List α} (h : xs.flatMap f = ys.flatMap f) : xs = ys := by
  induction xs generalizing ys with
  | nil =>
    cases ys with
    | nil => rfl
    | cons y ys =>
      rw [List.flatMap_nil, List.flatMap_cons] at h
      exact absurd (List.append_eq_nil_iff.mp h.symm).1 (hne y)
  | cons x xs ih =>
    cases ys with
    | nil =>
      rw [List.flatMap_nil, List.flatMap_cons] at h
      exact absurd (List.append_eq_nil_iff.mp h).1 (hne x)
    | cons y ys =>
      obtain ⟨rfl, hrest⟩ := hf x y _ _ h
      rw [ih hrest]

/-- A sequence of written forms ends at a mark with which none of them begins. -/
theorem PrefixFree.flatMap_closed {α β : Type} {f : α → List β} (hf : PrefixFree f) {mark : β}
    (hmark : ∀ a, ∃ x rest, f a = x :: rest ∧ x ≠ mark) {xs ys : List α} {s t : List β}
    (h : xs.flatMap f ++ mark :: s = ys.flatMap f ++ mark :: t) : xs = ys ∧ s = t := by
  induction xs generalizing ys with
  | nil =>
    cases ys with
    | nil => exact ⟨rfl, (List.cons.inj h).2⟩
    | cons y ys =>
      obtain ⟨x, rest, hy, hne⟩ := hmark y
      simp only [List.flatMap_nil, List.nil_append, List.flatMap_cons, hy, List.cons_append] at h
      exact absurd (List.cons.inj h).1.symm hne
  | cons x xs ih =>
    cases ys with
    | nil =>
      obtain ⟨y, rest, hx, hne⟩ := hmark x
      simp only [List.flatMap_nil, List.nil_append, List.flatMap_cons, hx, List.cons_append] at h
      exact absurd (List.cons.inj h).1 hne
    | cons y ys =>
      rw [List.flatMap_cons, List.flatMap_cons, List.append_assoc, List.append_assoc] at h
      obtain ⟨hxy, hrest⟩ := hf x y _ _ h
      obtain ⟨hxs, hs⟩ := ih hrest
      exact ⟨by rw [hxy, hxs], hs⟩

/-- What comes before the first mark, and what comes after it. -/
theorem mark_inj {β : Type} {mark : β} {l l' s t : List β} (hl : mark ∉ l) (hl' : mark ∉ l')
    (h : l ++ mark :: s = l' ++ mark :: t) : l = l' ∧ s = t := by
  induction l generalizing l' with
  | nil =>
    cases l' with
    | nil => exact ⟨rfl, (List.cons.inj h).2⟩
    | cons x l' =>
      have hx : mark = x := (List.cons.inj h).1
      exact absurd (hx ▸ List.mem_cons_self) hl'
  | cons x l ih =>
    cases l' with
    | nil =>
      have hx : mark = x := (List.cons.inj h).1.symm
      exact absurd (hx ▸ List.mem_cons_self) hl
    | cons y l' =>
      obtain ⟨hxy, htail⟩ := List.cons.inj h
      obtain ⟨hrun, hrest⟩ := ih (List.not_mem_of_not_mem_cons hl)
        (List.not_mem_of_not_mem_cons hl') htail
      exact ⟨by rw [hxy, hrun], hrest⟩

theorem cons_intercalate {β : Type} (mark : β) {l : List (List β)} (h : l ≠ []) :
    mark :: [mark].intercalate l = l.flatMap (mark :: ·) := by
  induction l with
  | nil => exact absurd rfl h
  | cons x rest ih =>
    cases rest with
    | nil => simp
    | cons y rest =>
      rw [List.intercalate_cons_cons, List.flatMap_cons, ← ih (List.cons_ne_nil _ _)]
      simp

/-! ### Hexadecimal digits -/

theorem digitChar_inj {i j : Nat} (hi : i < 16) (hj : j < 16)
    (h : Nat.digitChar i = Nat.digitChar j) : i = j := by
  have hall : ∀ i < 16, ∀ j < 16, Nat.digitChar i = Nat.digitChar j → i = j := by decide
  exact hall i hi j hj h

theorem toDigits_inj {m n : Nat} (h : Nat.toDigits 16 m = Nat.toDigits 16 n) : m = n := by
  induction m using Nat.strongRecOn generalizing n with
  | ind m ih =>
    rw [Nat.toDigits_eq_if (by decide), Nat.toDigits_eq_if (n := n) (by decide)] at h
    split at h
    · next hm =>
      split at h
      · next hn => exact digitChar_inj hm hn (List.cons.inj h).1
      · have hlen := congrArg List.length h
        have hpos := Nat.length_toDigits_pos (b := 16) (n := n / 16)
        simp only [List.length_cons, List.length_nil, List.length_append] at hlen
        omega
    · next hm =>
      split at h
      · have hlen := congrArg List.length h
        have hpos := Nat.length_toDigits_pos (b := 16) (n := m / 16)
        simp only [List.length_cons, List.length_nil, List.length_append] at hlen
        omega
      · obtain ⟨hinit, hlast⟩ := List.append_inj' h rfl
        have hdiv := ih (m / 16) (by omega) hinit
        have hmod := digitChar_inj (by omega) (by omega) (List.cons.inj hlast).1
        omega

theorem closing_notMem_toDigits (n : Nat) : '\x7d' ∉ Nat.toDigits 16 n := by
  have hdigit : ∀ i < 16, '\x7d' ≠ Nat.digitChar i := by decide
  induction n using Nat.strongRecOn with
  | ind n ih =>
    rw [Nat.toDigits_eq_if (by decide)]
    split
    · next hn => exact fun h => hdigit n hn (List.mem_singleton.mp h)
    · intro h
      rcases List.mem_append.mp h with h | h
      · exact ih (n / 16) (by omega) h
      · exact hdigit (n % 16) (by omega) (List.mem_singleton.mp h)

/-! ### Quoted text -/

theorem codeEscape_inj {c d : Char} {s t : List Char} (h : codeEscape c ++ s = codeEscape d ++ t) :
    c = d ∧ s = t := by
  simp only [codeEscape, List.cons_append, List.append_assoc, List.nil_append, List.cons.injEq,
    true_and] at h
  obtain ⟨hdigits, hs⟩ := mark_inj (closing_notMem_toDigits _) (closing_notMem_toDigits _) h
  exact ⟨Char.toNat_inj.mp (toDigits_inj hdigits), hs⟩

/-- The character that a letter after a backslash stands for. -/
def unescape : Char → Char
  | '0' => '\x00'
  | 't' => '\t'
  | 'r' => '\r'
  | 'n' => '\n'
  | x => x

/-- A character is written as it is, by a letter after a backslash, or by its code. -/
inductive Written (c : Char) : List Char → Prop
  | plain (noEscape : c ≠ '\\') (noQuote : c ≠ '"') : Written c [c]
  | letter (x : Char) (noCode : x ≠ 'u') (stands : unescape x = c) : Written c ['\\', x]
  | code : Written c (codeEscape c)

theorem quotedChar_written (c : Char) : Written c (quotedChar c) := by
  unfold quotedChar
  split
  · exact .letter '0' (by decide) rfl
  · exact .letter 't' (by decide) rfl
  · exact .letter 'r' (by decide) rfl
  · exact .letter 'n' (by decide) rfl
  · exact .letter '"' (by decide) rfl
  · exact .letter '\\' (by decide) rfl
  · next hquote hescape =>
    split
    · exact .code
    · exact .plain hescape hquote

theorem Written.inj {c d : Char} {l l' s t : List Char} (h : Written c l) (h' : Written d l')
    (he : l ++ s = l' ++ t) : c = d ∧ s = t := by
  cases h with
  | plain hc _ =>
    cases h' with
    | plain => exact List.cons.inj he
    | letter => exact absurd (List.cons.inj he).1 hc
    | code => exact absurd (List.cons.inj he).1 hc
  | letter x hx hc =>
    cases h' with
    | plain hd _ => exact absurd (List.cons.inj he).1.symm hd
    | letter y _ hd =>
      obtain ⟨hxy, hst⟩ := List.cons.inj (List.cons.inj he).2
      exact ⟨by rw [← hc, ← hd, hxy], hst⟩
    | code => exact absurd (List.cons.inj (List.cons.inj he).2).1 hx
  | code =>
    cases h' with
    | plain hd _ => exact absurd (List.cons.inj he).1.symm hd
    | letter y hy _ => exact absurd (List.cons.inj (List.cons.inj he).2).1.symm hy
    | code => exact codeEscape_inj he

theorem quotedChar_prefixFree : PrefixFree quotedChar :=
  fun c d _ _ h => (quotedChar_written c).inj (quotedChar_written d) h

theorem Written.head_ne_quote {c : Char} {l : List Char} (h : Written c l) :
    ∃ x rest, l = x :: rest ∧ x ≠ '"' := by
  cases h with
  | plain _ hc => exact ⟨_, _, rfl, hc⟩
  | letter => exact ⟨_, _, rfl, by decide⟩
  | code => exact ⟨_, _, rfl, by decide⟩

/-- A text in quotes ends where it seems to end. -/
theorem quoted_prefixFree : PrefixFree fun s => (quoted s).toList := by
  intro a b s t h
  simp only [quoted, String.toList_ofList, List.cons_append, List.append_assoc,
    List.nil_append] at h
  obtain ⟨hab, hst⟩ := quotedChar_prefixFree.flatMap_closed
    (fun c => (quotedChar_written c).head_ne_quote) (List.cons.inj h).2
  exact ⟨String.toList_inj.mp hab, hst⟩

end EmbeddedLang.Text
