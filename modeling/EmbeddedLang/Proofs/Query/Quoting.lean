import EmbeddedLang.Query.Dialect

/-!
A quoted identifier can be read back.

The closing mark inside an identifier is doubled. Whoever takes two of them for one stops at the end
of the identifier, as long as no further closing mark follows it.
-/

namespace EmbeddedLang.Query

namespace Quotes

/-- An identifier up to the first closing mark that stands alone, and what follows. -/
def readInside (q : Quotes) : List Char → Option (List Char × List Char)
  | [] => none
  | [c] => if c = q.closing then some ([], []) else none
  | c :: d :: rest =>
    if c = q.closing then
      if d = q.closing then (q.readInside rest).map fun found => (c :: found.1, found.2)
      else some ([], d :: rest)
    else (q.readInside (d :: rest)).map fun found => (c :: found.1, found.2)

/-- The identifier that a text begins with, and what follows it. -/
def read? (q : Quotes) : List Char → Option (String × List Char)
  | [] => none
  | c :: rest =>
    if c = q.opening then (q.readInside rest).map fun found => (String.ofList found.1, found.2)
    else none

/-- Two identifiers with a dot between them, and what follows. -/
def readQualified? (q : Quotes) (text : List Char) : Option (String × String × List Char) := do
  let (qualifier, '.' :: rest) ← q.read? text | none
  let (name, after) ← q.read? rest
  return (qualifier, name, after)

variable {q : Quotes}

theorem readInside_cons {c : Char} (hc : c ≠ q.closing) (cs : List Char) :
    q.readInside (c :: cs) = (q.readInside cs).map fun found => (c :: found.1, found.2) := by
  cases cs with
  | nil => simp [readInside, hc]
  | cons d rest => rw [readInside, if_neg hc]

theorem readInside_closing {rest : List Char} (h : rest.head? ≠ some q.closing) :
    q.readInside (q.closing :: rest) = some ([], rest) := by
  cases rest with
  | nil => rw [readInside, if_pos rfl]
  | cons d rest =>
    have hd : d ≠ q.closing := fun he => h (congrArg some he)
    rw [readInside, if_pos rfl, if_neg hd]

theorem readInside_double (cs : List Char) {rest : List Char}
    (h : rest.head? ≠ some q.closing) :
    q.readInside (q.double cs ++ q.closing :: rest) = some (cs, rest) := by
  induction cs with
  | nil => exact readInside_closing h
  | cons c cs ih =>
    rw [double]
    split
    · rename_i hc
      rw [List.cons_append, List.cons_append, readInside, if_pos hc, if_pos hc, ih, Option.map_some]
    · rename_i hc
      rw [List.cons_append, readInside_cons hc, ih, Option.map_some]

theorem read?_quote (identifier : String) {rest : List Char}
    (h : rest.head? ≠ some q.closing) :
    q.read? ((q.quote identifier).toList ++ rest) = some (identifier, rest) := by
  rw [quote, String.toList_ofList, List.append_assoc, List.cons_append, List.singleton_append,
    read?, if_pos rfl, readInside_double identifier.toList h, Option.map_some, String.ofList_toList]

theorem quote_injective : Function.Injective q.quote := by
  intro a b h
  have hnil : ([] : List Char).head? ≠ some q.closing := by simp
  have ha := read?_quote a hnil
  rw [h, read?_quote b hnil] at ha
  exact (Prod.mk.inj (Option.some.inj ha)).1.symm

/-- Two identifiers as they stand in SQL. -/
def qualify (q : Quotes) (qualifier name : String) : String :=
  q.quote qualifier ++ "." ++ q.quote name

theorem readQualified?_qualify (hdot : q.closing ≠ '.') (qualifier name : String)
    {rest : List Char} (h : rest.head? ≠ some q.closing) :
    q.readQualified? ((q.qualify qualifier name).toList ++ rest) =
      some (qualifier, name, rest) := by
  have hhead : ('.' :: ((q.quote name).toList ++ rest)).head? ≠ some q.closing :=
    fun he => hdot (Option.some.inj he).symm
  have htext : (q.qualify qualifier name).toList ++ rest =
      (q.quote qualifier).toList ++ '.' :: ((q.quote name).toList ++ rest) := by
    have hd : ".".toList = ['.'] := by decide
    rw [qualify, String.toList_append, String.toList_append, hd, List.append_assoc,
      List.append_assoc, List.singleton_append]
  simp [readQualified?, htext, read?_quote qualifier hhead, read?_quote name h]

/-- Where the closing mark is a dot, it is not told what is doubled and what stands between. -/
theorem qualify_not_injective (hdot : q.closing = '.') :
    ¬ Function.Injective fun names : String × String => q.qualify names.1 names.2 := by
  intro hinj
  have hsame : q.qualify "" (String.ofList ['.', q.opening]) =
      q.qualify (String.ofList ['.', q.opening]) "" := by
    apply String.toList_inj.mp
    by_cases ho : q.opening = '.' <;> simp [qualify, quote, double, hdot, ho]
  have hnames := @hinj ("", _) (_, "") hsame
  have hempty : String.ofList ['.', q.opening] = "" := (Prod.mk.inj hnames).1.symm
  exact List.cons_ne_nil _ _ (String.ofList_eq_empty_iff.mp hempty)

end Quotes

theorem Fragment.finish_qualified (q : Quotes) (style : PlaceholderStyle)
    (qualifier name : String) :
    ((qualified q qualifier name).finish style).1 = q.qualify qualifier name := by
  simp [qualified, Fragment.name, text, finish, finishFrom, Piece.words, Quotes.qualify,
    String.append_assoc]

/-- An identifier ends where a reader thinks that it ends. So do two of them with a dot between
them, unless it is a dot that closes them. -/
theorem Dialect.quoted_read_back (d : Dialect) :
    (∀ identifier rest, rest.head? ≠ some d.quotes.closing →
      d.quotes.read? ((d.quote identifier).toList ++ rest) = some (identifier, rest)) ∧
    Function.Injective d.quote ∧
    (d.quotes.closing ≠ '.' → ∀ qualifier name rest, rest.head? ≠ some d.quotes.closing →
      d.quotes.readQualified?
        (((Fragment.qualified d.quotes qualifier name).finish d.style).1.toList ++ rest) =
          some (qualifier, name, rest)) ∧
    (d.quotes.closing = '.' → ¬ Function.Injective fun names : String × String =>
      ((Fragment.qualified d.quotes names.1 names.2).finish d.style).1) := by
  simp only [Fragment.finish_qualified]
  refine ⟨?_, Quotes.quote_injective, ?_, Quotes.qualify_not_injective⟩
  · intro identifier rest h
    exact Quotes.read?_quote identifier h
  · intro hdot qualifier name rest h
    exact Quotes.readQualified?_qualify hdot qualifier name h

/-- A dialect with its own marks around identifiers. -/
def angled : Dialect :=
  .bare "angled" ⟨'<', '>'⟩ .named

/-- A dialect in which a dot ends an identifier. -/
def dotted : Dialect :=
  .bare "dotted" ⟨'[', '.'⟩ .question

theorem quoted_read_back_angled :
    (".x".toList.head? ≠ some '>' ∧
      angled.quotes.read? ((angled.quote ">><>").toList ++ ".x".toList) =
        some (">><>", ".x".toList)) ∧
    (angled.quotes.closing ≠ '.' ∧ ([] : List Char).head? ≠ some '>' ∧
      angled.quotes.readQualified?
        (((Fragment.qualified angled.quotes ".>" "<.").finish angled.style).1.toList ++ []) =
          some (".>", "<.", [])) ∧
    dotted.quotes.closing = '.' ∧ ¬ Function.Injective fun names : String × String =>
      ((Fragment.qualified dotted.quotes names.1 names.2).finish dotted.style).1 :=
  ⟨⟨by decide, angled.quoted_read_back.1 ">><>" ".x".toList (by decide)⟩,
    ⟨by decide, by decide, angled.quoted_read_back.2.2.1 (by decide) ".>" "<." [] (by decide)⟩,
    rfl, dotted.quoted_read_back.2.2.2 rfl⟩

/-- Two pairs of names are written alike. -/
theorem dotted_names_alike :
    ((Fragment.qualified dotted.quotes "a.[b" "c").finish dotted.style).1 =
      ((Fragment.qualified dotted.quotes "a" "b.[c").finish dotted.style).1 ∧
    ("a.[b", "c") ≠ ("a", "b.[c") := by
  decide +kernel

end EmbeddedLang.Query
