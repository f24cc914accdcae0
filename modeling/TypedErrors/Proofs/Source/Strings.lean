import TypedErrors.Proofs.Source.Print

/-! # The strings of a file

`strings` lists the string tokens of a file as they stand in its attribute blocks and types. A printed file has the
strings of its lexemes (`PrintsItems.strings`). -/

namespace TypedErrors

/-- The texts of the strings among lexemes. -/
def stringTexts (ls : List Lexeme) : List String := (ls.filter fun l => l.terminal = .string).map Lexeme.text

mutual

def TypeExpr.strings : TypeExpr → List String
  | .union first more => first.strings ++ TypeAtom.stringsMore more

def TypeAtom.stringsMore : List TypeAtom → List String
  | [] => []
  | a :: more => a.strings ++ TypeAtom.stringsMore more

def TypeAtom.strings : TypeAtom → List String
  | .plain _ => []
  | .subscripted _ first more => first.strings ++ TypeArg.stringsMore more

def TypeArg.stringsMore : List TypeArg → List String
  | [] => []
  | a :: more => a.strings ++ TypeArg.stringsMore more

def TypeArg.strings : TypeArg → List String
  | .type e => e.strings
  | .list items => TypeArg.stringsMore items
  | .literal text => [text]
  | .ellipsis => []

end

def RawAttribute.strings (a : RawAttribute) : List String := stringTexts (a.tokens.map AttrToken.lexeme)

def Field.strings (f : Field) : List String := f.attrs.flatMap RawAttribute.strings ++ f.type.strings

def Fields.strings (fs : Fields Field) : List String := fs.values.flatMap Field.strings

def Variant.strings (v : Variant) : List String := v.attrs.flatMap RawAttribute.strings ++ v.fields.strings

def Shape.strings : Shape → List String
  | .struct fs => fs.strings
  | .enum vs => vs.flatMap Variant.strings
  | .union fs => fs.strings

def Declaration.strings (d : Declaration) : List String := d.attrs.flatMap RawAttribute.strings ++ d.shape.strings

def SourceFile.strings (f : SourceFile) : List String := f.declarations.flatMap Declaration.strings

/-! ### Strings without spans -/

theorem RawAttribute.strings_unspanned (a : RawAttribute) : a.unspanned.strings = a.strings := by
  rw [strings, strings, unspanned, List.map_map]
  rfl

theorem flatMap_strings_unspanned (attrs : List RawAttribute) :
    (attrs.map RawAttribute.unspanned).flatMap RawAttribute.strings = attrs.flatMap RawAttribute.strings := by
  rw [List.flatMap_map]
  exact congrArg (List.flatMap · attrs) (funext RawAttribute.strings_unspanned)

theorem Field.strings_unspanned (f : Field) : f.unspanned.strings = f.strings := by
  rw [strings, strings, unspanned, flatMap_strings_unspanned]

theorem Fields.values_map {α β : Type} (f : α → β) (fs : Fields α) : (fs.map f).values = fs.values.map f := by
  cases fs <;> simp [Fields.map, Fields.values, Fields.entries]

theorem Fields.strings_unspanned (fs : Fields Field) : (fs.map Field.unspanned).strings = fs.strings := by
  rw [strings, strings, values_map, List.flatMap_map]
  exact congrArg (List.flatMap · fs.values) (funext Field.strings_unspanned)

theorem Variant.strings_unspanned (v : Variant) : v.unspanned.strings = v.strings := by
  rw [strings, strings, unspanned, flatMap_strings_unspanned, Fields.strings_unspanned]

theorem Shape.strings_unspanned (s : Shape) : s.unspanned.strings = s.strings := by
  cases s with
  | struct fs | union fs => exact fs.strings_unspanned
  | enum vs =>
    rw [unspanned, strings, strings, List.flatMap_map]
    exact congrArg (List.flatMap · vs) (funext Variant.strings_unspanned)

theorem Declaration.strings_unspanned (d : Declaration) : d.unspanned.strings = d.strings := by
  rw [strings, strings, unspanned, flatMap_strings_unspanned, Shape.strings_unspanned]

theorem SourceFile.strings_unspanned (f : SourceFile) : f.unspanned.strings = f.strings := by
  rw [strings, strings, unspanned, List.flatMap_map]
  exact congrArg (List.flatMap · f.declarations) (funext Declaration.strings_unspanned)

/-! ### Strings of lexemes -/

variable {l : Lexeme} {ls ms : List Lexeme}

@[simp] theorem stringTexts_nil : stringTexts [] = [] := rfl

@[simp] theorem stringTexts_append : stringTexts (ls ++ ms) = stringTexts ls ++ stringTexts ms := by
  simp [stringTexts]

@[simp] theorem stringTexts_string (s : String) : stringTexts (⟨.string, s⟩ :: ls) = s :: stringTexts ls := rfl

theorem stringTexts_cons (h : l.terminal ≠ .string) : stringTexts (l :: ls) = stringTexts ls := by
  simp [stringTexts, h]

@[simp] theorem stringTexts_name (s : String) : stringTexts (.name s :: ls) = stringTexts ls :=
  stringTexts_cons nofun

/-- Fixed spellings are no strings. -/
@[simp] theorem stringTexts_lexeme {t : Terminal} (h : t ≠ .string) : stringTexts (t.lexeme :: ls) = stringTexts ls :=
  stringTexts_cons h

theorem PrintsParts.strings {ss : List String} (h : PrintsParts ss ls) : stringTexts ls = [] := by
  induction h with
  | nil => rfl
  | cons hsep _ _ ih => rcases hsep with rfl | rfl <;> simpa using ih

theorem DottedName.Prints.strings {p : DottedName} (h : p.Prints ls) : stringTexts ls = [] := by
  obtain ⟨-, h⟩ := h
  rw [stringTexts_name, h.strings]

mutual

theorem TypeExpr.Prints.strings : ∀ {e : TypeExpr} {ls : List Lexeme}, e.Prints ls → stringTexts ls = e.strings
  | _, _, .union ha hmore => by
    rw [stringTexts_append, ha.strings, hmore.strings, TypeExpr.strings]

theorem TypeAtom.PrintsMore.strings : ∀ {as : List TypeAtom} {ls : List Lexeme}, TypeAtom.PrintsMore as ls →
    stringTexts ls = TypeAtom.stringsMore as
  | _, _, .nil => rfl
  | _, _, .cons ha h => by
    rw [stringTexts_lexeme (by decide), stringTexts_append, ha.strings, h.strings, TypeAtom.stringsMore]

theorem TypeAtom.Prints.strings : ∀ {a : TypeAtom} {ls : List Lexeme}, a.Prints ls → stringTexts ls = a.strings
  | _, _, .plain hp => hp.strings
  | _, _, .subscripted hp ha hmore => by
    simp [hp.strings, ha.strings, hmore.strings, TypeAtom.strings]

theorem TypeArg.PrintsMore.strings : ∀ {as : List TypeArg} {ls : List Lexeme}, TypeArg.PrintsMore as ls →
    stringTexts ls = TypeArg.stringsMore as
  | _, _, .nil => rfl
  | _, _, .comma => rfl
  | _, _, .cons ha h => by
    rw [stringTexts_lexeme (by decide), stringTexts_append, ha.strings, h.strings, TypeArg.stringsMore]

theorem TypeArg.Prints.strings : ∀ {a : TypeArg} {ls : List Lexeme}, a.Prints ls → stringTexts ls = a.strings
  | _, _, .type he => he.strings
  | _, _, .empty => rfl
  | _, _, .list ha hmore => by
    simp [ha.strings, hmore.strings, TypeArg.strings, TypeArg.stringsMore]
  | _, _, .literal => rfl
  | _, _, .ellipsis => rfl

end

/-! ### Strings of declarations -/

theorem PrintsOuter.strings {attrs : List RawAttribute} {docs : List String} (h : PrintsOuter attrs docs ls) :
    stringTexts ls = attrs.flatMap RawAttribute.strings := by
  induction h with
  | nil => rfl
  | block ha _ ih =>
    obtain ⟨-⟩ := ha
    simp [ih, RawAttribute.strings]
  | doc hs _ ih => cases hs <;> exact (stringTexts_cons (show Terminal.doc ≠ .string by decide)).trans ih

theorem PrintsScope.strings {s : String} (h : PrintsScope s l) : stringTexts (l :: ls) = stringTexts ls := by
  cases h with
  | name => exact stringTexts_name s
  | word ht =>
    refine stringTexts_lexeme ?_
    rintro rfl
    exact absurd ht (by decide)

theorem PrintsScopes.strings {ss : List String} (h : PrintsScopes ss ls) : stringTexts ls = [] := by
  induction h with
  | nil => rfl
  | cons hsep hs _ ih =>
    rcases hsep with rfl | rfl <;> rw [stringTexts_lexeme (by decide), hs.strings, ih]

theorem PrintsRestriction.strings {v : Visibility} (h : PrintsRestriction v ls) : stringTexts ls = [] := by
  cases h with
  | crate => rfl
  | scope ht => rcases ht with rfl | rfl <;> rfl
  | path hs h => rw [stringTexts_lexeme (by decide), hs.strings, h.strings]

theorem Visibility.Prints.strings {v : Visibility} (h : v.Prints ls) : stringTexts ls = [] := by
  cases h with
  | inherited | pub => rfl
  | restricted h => simp [h.strings]

theorem PrintsList.strings {α : Type} {Prints : α → List Lexeme → Prop} {xs : List α} {f : α → List String}
    (h : PrintsList Prints xs ls) (hf : ∀ {x ls}, Prints x ls → stringTexts ls = f x) :
    stringTexts ls = xs.flatMap f := by
  induction h with
  | nil => rfl
  | last hx => simp [hf hx]
  | cons hx _ ih => simp [hf hx, ih]

theorem PrintsNamedField.strings {p : String × Field} (h : PrintsNamedField p ls) : stringTexts ls = p.2.strings := by
  obtain ⟨houter, hvis, -, -, htype⟩ := h
  simp [houter.strings, hvis.strings, htype.strings, Field.strings]

theorem PrintsUnnamedField.strings {f : Field} (h : PrintsUnnamedField f ls) : stringTexts ls = f.strings := by
  obtain ⟨houter, hvis, -, htype⟩ := h
  simp [houter.strings, hvis.strings, htype.strings, Field.strings]

theorem Fields.values_ofList {α : Type} (xs : List α) : (Fields.ofList xs).values = xs := by
  simp [Fields.ofList, Fields.values, Fields.entries, Function.comp_def]

theorem PrintsFields.strings {fs : Fields Field} (h : PrintsFields fs ls) : stringTexts ls = fs.strings := by
  cases h with
  | unit => rfl
  | @named ls fs h =>
    have hall := h.strings PrintsNamedField.strings
    simp [hall, Fields.strings, Fields.values, Fields.entries, List.flatMap_map]
  | unnamed h =>
    rw [Fields.strings, Fields.values_ofList]
    simpa using h.strings PrintsUnnamedField.strings

theorem Variant.Prints.strings {v : Variant} (h : v.Prints ls) : stringTexts ls = v.strings := by
  obtain ⟨houter, -, hfields⟩ := h
  simp [houter.strings, hfields.strings, Variant.strings]

theorem PrintsStruct.strings {fs : Fields Field} (h : PrintsStruct fs ls) : stringTexts ls = fs.strings := by
  cases h with
  | unit => rfl
  | named h => exact h.strings
  | unnamed h => simp [h.strings]

theorem Shape.Prints.strings {s : String} {shape : Shape} (h : shape.Prints s ls) :
    stringTexts ls = shape.strings := by
  cases h with
  | struct h => simp [h.strings, Shape.strings]
  | enum h => simp [h.strings Variant.Prints.strings, Shape.strings]
  | union h => simp [h.strings, Shape.strings]

theorem Declaration.Prints.strings {d : Declaration} (h : d.Prints ls) : stringTexts ls = d.strings := by
  obtain ⟨houter, hvis, -, hshape⟩ := h
  simp [houter.strings, hvis.strings, hshape.strings, Declaration.strings]

theorem PrintsAlias.strings {alias? : Option String} (h : PrintsAlias alias? ls) : stringTexts ls = [] := by
  cases h <;> rfl

theorem Import.Prints.strings {i : Import} (h : i.Prints ls) : stringTexts ls = [] := by
  obtain ⟨hpath, halias⟩ := h
  simp [hpath.strings, halias.strings]

theorem PrintsItems.strings {is : List Import} {ds : List Declaration} (h : PrintsItems is ds ls) :
    stringTexts ls = ds.flatMap Declaration.strings := by
  induction h with
  | nil => rfl
  | import_ hi _ ih => simp [hi.strings, ih]
  | declaration hd _ ih => simp [hd.strings, ih]

end TypedErrors
