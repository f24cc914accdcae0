import TypedErrors.ErrorType.Basic
import TypedErrors.Proofs.Attribute.Literal
import TypedErrors.Proofs.Attribute.Rendering
import TypedErrors.Proofs.Text

/-! # Forms of one attribute

A value can be given in parentheses or after `=`, no value by empty parentheses or by the bare word, and a name as
itself or as a string. For each adapter it makes no difference which form is used (`forms_agree`), but for the place of
what is read or reported. -/

namespace TypedErrors

open AttrParse

variable {α β : Type}

/-! ### Places left out -/

/-- The fault without its place. -/
def Fault.unplaced : Fault → Fault
  | .report d => .report { d with span := none }
  | .abort a => .abort a

/-- The outcome without the place of its fault. -/
def unplaced (x : Except Fault α) : Except Fault α := x.mapError Fault.unplaced

theorem unplaced_anchored (s : Option Span) (x : Except Fault α) : unplaced (anchored s x) = unplaced x := by
  cases x with
  | ok v => rfl
  | error f => cases f <;> rfl

theorem map_anchored (f : α → β) (s : Option Span) (x : Except Fault α) :
    f <$> anchored s x = anchored s (f <$> x) := by
  cases x <;> rfl

/-- What is reported has a place. -/
def HasPlace (x : Except Fault α) : Prop := ∀ d, x = .error (.report d) → d.span.isSome = true

theorem HasPlace.anchored {s : Option Span} (hs : s.isSome = true) (x : Except Fault α) :
    HasPlace (TypedErrors.anchored s x) := by
  rintro d hd
  obtain ⟨place, rfl⟩ := Option.isSome_iff_exists.mp hs
  cases x with
  | ok v => cases hd
  | error f =>
    cases f with
    | abort a => cases hd
    | report d' =>
      cases hd
      cases hspan : d'.span <;> simp [Diagnostic.withSpan, hspan]

theorem HasPlace.map {x : Except Fault α} (h : HasPlace x) (f : α → β) : HasPlace (f <$> x) :=
  fun d hd => h d (map_eq_error.mp hd)

/-- A place that is set stays. -/
theorem HasPlace.anchored_eq {x : Except Fault α} (h : HasPlace x) (s : Option Span) :
    TypedErrors.anchored s x = x := by
  cases x with
  | ok v => rfl
  | error f =>
    cases f with
    | abort a => rfl
    | report d =>
      obtain ⟨code, message, path, span, suggestions⟩ := d
      obtain ⟨place, rfl⟩ := Option.isSome_iff_exists.mp (h _ rfl)
      rfl

/-! ### Values and arguments -/

/-- The argument that a value is read as. -/
def AttrValue.toArg : AttrValue → AttrArg
  | .path p => .node (.word p p.span)
  | .literal l => .literal l

theorem AttrParse.ValueOf.argOf {vs : List AttrToken} {v : AttrValue} (h : ValueOf vs v) : ArgOf vs v.toArg := by
  cases h with
  | literal ht hl => exact .literal ht hl
  | path ht hp =>
    refine .node (fun hs => ?_) (.word hp)
    rw [hs.1] at ht
    cases ht

theorem AttrParse.ValueOf.isSome_span {vs : List AttrToken} {v : AttrValue} (h : ValueOf vs v)
    (hvs : ∀ t ∈ vs, t.span.isSome = true) : v.span.isSome = true := by
  cases h with
  | literal ht hl =>
    rw [AttrValue.span, literal_span hl]
    exact hvs _ (List.mem_singleton_self _)
  | path ht hp =>
    cases hp with
    | mk _ _ =>
      rw [AttrValue.span, Option.isSome_map]
      exact hvs _ (List.mem_cons_self ..)

namespace Adapter

/-- The adapters of one value: those for anything of a kind, and those that attributes of declarations are read with. -/
inductive Single : {α : Type} → Adapter α → Prop
  | refusing {α : Type} : Single (refusing : Adapter α)
  | unit : Single unit
  | flag : Single flag
  | text : Single text
  | integer (minimum maximum : Option Int) : Single (integer minimum maximum)
  | number : Single number
  | symbol : Single symbol
  | symbolPath : Single symbolPath
  | anyLiteral : Single anyLiteral
  | fieldRef : Single fieldRef
  | description : Single description
  | copyMethod : Single copyMethod
  | aliasSetting : Single aliasSetting

/-- Adapters of one value, and those of lists of them. -/
inductive Listed : {α : Type} → Adapter α → Prop
  | single {α : Type} {a : Adapter α} (h : Single a) : Listed a
  | listOf {α : Type} {a : Adapter α} (h : Single a) : Listed a.listOf

variable {a : Adapter α}

/-- How an adapter goes from a node to its value or its arguments: no argument is like the bare word, and one that is a
value is like the value after `=`. -/
structure Unwraps (a : Adapter α) : Prop where
  word : ∀ p s, a.node (.word p s) = anchored s a.empty
  assign : ∀ p v s, a.node (.assign p v s) = anchored s (a.value v)
  list : ∀ p xs s, a.node (.list p xs s) = anchored s (a.list xs)
  list_nil : a.list [] = a.empty
  list_toArg : ∀ v : AttrValue, a.list [v.toArg] = a.value v
  hasPlace : ∀ v : AttrValue, v.span.isSome = true → HasPlace (a.value v)

theorem Single.arg_toArg (h : Single a) (v : AttrValue) : a.arg v.toArg = a.value v := by
  cases h <;> cases v <;> rfl

theorem Single.list_singleton (h : Single a) (x : AttrArg) : a.list [x] = a.arg x := by
  cases h <;> rfl

theorem Single.unwraps (h : Single a) : a.Unwraps where
  word p s := by cases h <;> rfl
  assign p v s := by cases h <;> rfl
  list p xs s := by cases h <;> rfl
  list_nil := by cases h <;> rfl
  list_toArg v := (h.list_singleton _).trans (h.arg_toArg v)
  hasPlace v hv := by cases h <;> exact .anchored hv _

theorem listOf_list_singleton (a : Adapter α) (x : AttrArg) : a.listOf.list [x] = (fun y => [y]) <$> a.arg x := by
  show [x].mapM a.arg = _
  rw [List.mapM_cons, List.mapM_nil]
  cases a.arg x <;> rfl

theorem Single.unwraps_listOf (h : Single a) : a.listOf.Unwraps where
  word p s := rfl
  assign p v s := rfl
  list p xs s := rfl
  list_nil := rfl
  list_toArg v := by
    rw [listOf_list_singleton, h.arg_toArg]
    show _ = (a.value v >>= fun y => pure [y])
    cases a.value v <;> rfl
  hasPlace v hv := (h.unwraps.hasPlace v hv).map fun y => [y]

theorem Listed.unwraps (h : Listed a) : a.Unwraps := by
  cases h with
  | single h => exact h.unwraps
  | listOf h => exact h.unwraps_listOf

namespace Unwraps

/-- A value is read alike in parentheses and after `=`. -/
theorem node_list_toArg (h : a.Unwraps) {v : AttrValue} (hv : v.span.isSome = true) (p p' : SymbolPath)
    (s s' : Option Span) : a.node (.list p [v.toArg] s) = a.node (.assign p' v s') := by
  rw [h.list, h.assign, h.list_toArg, (h.hasPlace v hv).anchored_eq, (h.hasPlace v hv).anchored_eq]

/-- Empty parentheses are read like the bare word. -/
theorem node_list_nil (h : a.Unwraps) (p p' : SymbolPath) (s s' : Option Span) :
    unplaced (a.node (.list p [] s)) = unplaced (a.node (.word p' s')) := by
  rw [h.list, h.word, h.list_nil, unplaced_anchored, unplaced_anchored]

end Unwraps
end Adapter

/-! ### Names and strings -/

def Ident.bare (i : Ident) : Ident := ⟨i.name, none⟩

def FieldRef.bare : FieldRef → FieldRef
  | .name n _ => .name n none
  | .index i digits _ => .index i digits none

namespace Adapter

/-- The adapters that take names, each with how the place of what it extracts is left out. -/
inductive TakesNames : {α : Type} → Adapter α → (α → α) → Prop
  | text : TakesNames text id
  | symbol : TakesNames symbol Ident.bare
  | symbolPath : TakesNames symbolPath SymbolPath.bare
  | fieldRef : TakesNames fieldRef FieldRef.bare
  | copyMethod : TakesNames copyMethod id
  | aliasSetting : TakesNames aliasSetting id

/-- No character of an identifier separates the parts of a path. -/
theorem not_separator_of_ofText? {w : String} (h : Identifier.ofText? (Text.ofString w) = some w) :
    ∀ c ∈ w.toList, c ≠ '.' ∧ c ≠ ':' := by
  have hmarks : Identifier.isContinue '.' = false ∧ Identifier.isContinue ':' = false := by decide
  refine fun c hc => ⟨?_, ?_⟩
  · rintro rfl
    exact Bool.false_ne_true (hmarks.1.symm.trans (Identifier.isContinue_of_ofText? h _ hc))
  · rintro rfl
    exact Bool.false_ne_true (hmarks.2.symm.trans (Identifier.isContinue_of_ofText? h _ hc))

/-- A text without separators is one part. -/
theorem splitPath_ofChars {cs : List Char} (h : ∀ c ∈ cs, c ≠ '.' ∧ c ≠ ':') (acc : Text) :
    splitPath acc (Text.ofChars cs) = [acc.reverse ++ Text.ofChars cs] := by
  induction cs generalizing acc with
  | nil => simp [Text.ofChars, splitPath]
  | cons c cs ih =>
    obtain ⟨⟨hdot, hcolon⟩, hcs⟩ := List.forall_mem_cons.mp h
    have hstep : splitPath acc (Text.ofChars (c :: cs)) = splitPath (.char c :: acc) (Text.ofChars cs) := by
      rw [Text.ofChars, List.map_cons, splitPath]
      · rfl
      · exact fun _ hc _ => hcolon (CodePoint.char.inj hc)
      · exact fun hc => hdot (CodePoint.char.inj hc)
    rw [hstep, ih hcs]
    simp [Text.ofChars]

variable {bare : α → α} {w : String}

theorem TakesNames.string_eq (h : TakesNames a bare) (hw : Identifier.ofText? (Text.ofString w) = some w)
    (s s' s'' : Option Span) :
    unplaced (bare <$> a.path ⟨[⟨w, s⟩], s'⟩) = unplaced (bare <$> a.string ⟨Text.ofString w, s''⟩) := by
  cases h with
  | text => rfl
  | symbol =>
    simp only [Adapter.symbol, hw]
    rfl
  | symbolPath =>
    have hsplit : splitPath [] (Text.ofString w) = [Text.ofString w] :=
      splitPath_ofChars (not_separator_of_ofText? hw) []
    have hparts : [Text.ofString w].mapM Identifier.ofText? = some [w] := by
      rw [List.mapM_cons, hw]
      rfl
    simp only [Adapter.symbolPath, hsplit, hparts]
    rfl
  | fieldRef => rfl
  | copyMethod =>
    show unplaced (id <$> copyMethodNamed _ s) = unplaced (id <$> copyMethodNamed _ s'')
    rw [copyMethodNamed, copyMethodNamed]
    cases CopyMethod.ofText? (Text.ofString w) <;> rfl
  | aliasSetting =>
    simp only [Adapter.aliasSetting, hw]
    rfl

/-- A name is read alike as itself and as a string. -/
theorem TakesNames.value_eq (h : TakesNames a bare) (hw : Identifier.ofText? (Text.ofString w) = some w)
    (s s' s'' : Option Span) :
    unplaced (bare <$> a.value (.path ⟨[⟨w, s⟩], s'⟩)) =
      unplaced (bare <$> a.value (.literal (.string ⟨Text.ofString w, s''⟩))) := by
  have hvalue : a.value (.path ⟨[⟨w, s⟩], s'⟩) = anchored s' (a.path ⟨[⟨w, s⟩], s'⟩) ∧
      a.value (.literal (.string ⟨Text.ofString w, s''⟩)) =
        anchored s'' (anchored s'' (a.string ⟨Text.ofString w, s''⟩)) := by
    cases h <;> exact ⟨rfl, rfl⟩
  rw [hvalue.1, hvalue.2]
  simp only [map_anchored, unplaced_anchored]
  exact h.string_eq hw s s' s''

theorem TakesNames.single (h : TakesNames a bare) : Single a := by
  cases h with
  | text => exact .text
  | symbol => exact .symbol
  | symbolPath => exact .symbolPath
  | fieldRef => exact .fieldRef
  | copyMethod => exact .copyMethod
  | aliasSetting => exact .aliasSetting

theorem TakesNames.node_assign (h : TakesNames a bare) (hw : Identifier.ofText? (Text.ofString w) = some w)
    (p p' : SymbolPath) (s s' s'' t t' : Option Span) :
    unplaced (bare <$> a.node (.assign p (.path ⟨[⟨w, s⟩], s'⟩) t)) =
      unplaced (bare <$> a.node (.assign p' (.literal (.string ⟨Text.ofString w, s''⟩)) t')) := by
  rw [h.single.unwraps.assign, h.single.unwraps.assign]
  simp only [map_anchored, unplaced_anchored]
  exact h.value_eq hw s s' s''

/-! ### Blocks -/

/-- Both blocks are read, and what the adapter makes of them looks the same. -/
def SameOn (a : Adapter α) (look : Except Fault α → β) (b b' : RawAttribute) : Prop :=
  ∃ m m', parseAttribute b = .ok m ∧ parseAttribute b' = .ok m' ∧ look (a.node m) = look (a.node m')

variable {ps ps' : List AttrToken} {n n' : SymbolPath} {o c e e' : AttrToken}

/-- Between `n(v)` and `n = v`, with `v` in one place, an adapter makes no difference; between `n()` and `n`, or between
a name and the string of it as values, it makes none but for places. -/
theorem forms_agree (hn : PathOf ps n) (hn' : PathOf ps' n') (ho : o.terminal = .leftParen)
    (hc : c.terminal = .rightParen) (he : e.terminal = .equal) (he' : e'.terminal = .equal) (s s' : Option Span) :
    (∀ {α : Type} {a : Adapter α}, Listed a → ∀ {vs : List AttrToken} {v : AttrValue}, ValueOf vs v →
        (∀ t ∈ vs, t.span.isSome = true) → a.SameOn id ⟨ps ++ o :: (vs ++ [c]), s⟩ ⟨ps' ++ e :: vs, s'⟩) ∧
      (∀ {α : Type} {a : Adapter α}, Listed a → a.SameOn unplaced ⟨ps ++ [o, c], s⟩ ⟨ps', s'⟩) ∧
      ∀ {α : Type} {a : Adapter α} {bare : α → α}, TakesNames a bare → ∀ {t u : AttrToken} {w : String},
        t.terminal = .name → t.text = w → Identifier.ofText? (Text.ofString w) = some w → w ≠ "true" → w ≠ "false" →
        u.terminal = .string → AttrParse.literal u = .ok (.string ⟨Text.ofString w, u.span⟩) →
        a.SameOn (fun x => unplaced (bare <$> x)) ⟨ps ++ [e, t], s⟩ ⟨ps' ++ [e', u], s'⟩ := by
  refine ⟨fun h vs v hv hvs => ?_, fun h => ?_, fun h t u w ht htext hw htrue hfalse hu hlit => ?_⟩
  · refine ⟨_, _, parseAttribute_eq_ok_iff.mpr (.list hn ho (.last hv.argOf hc)),
      parseAttribute_eq_ok_iff.mpr (.assign hn' he hv), ?_⟩
    exact h.unwraps.node_list_toArg (hv.isSome_span hvs) _ _ _ _
  · exact ⟨_, _, parseAttribute_eq_ok_iff.mpr (.list hn ho (.close hc)), parseAttribute_eq_ok_iff.mpr (.word hn'),
      h.unwraps.node_list_nil _ _ _ _⟩
  · subst htext
    have hname : isLiteral t = false := by
      rw [Bool.eq_false_iff, ne_eq, isLiteral_iff_of_name ht, not_or]
      exact ⟨htrue, hfalse⟩
    have hstring : isLiteral u = true := by simp [isLiteral, hu]
    exact ⟨_, _, parseAttribute_eq_ok_iff.mpr (.assign hn he (.path hname (.mk ht .nil))),
      parseAttribute_eq_ok_iff.mpr (.assign hn' he' (.literal hstring hlit)), h.node_assign hw _ _ _ _ _ _ _⟩

/-- The word `copy` at the third column. -/
def copyWord : AttrToken := ⟨.name, "copy", some ⟨"a", 1, 3, some 1, some 7⟩⟩

/-- `m(copy)` and `m = copy`, `m()` and `m`, `m = copy` and `m = "copy"`. -/
theorem forms_agree_copy :
    copyMethod.SameOn id
        ⟨[⟨.name, "m", none⟩, ⟨.leftParen, "(", none⟩, copyWord, ⟨.rightParen, ")", none⟩], none⟩
        ⟨[⟨.name, "m", none⟩, ⟨.equal, "=", none⟩, copyWord], none⟩ ∧
      copyMethod.SameOn unplaced (blockOf [(.name, "m"), (.leftParen, "("), (.rightParen, ")")])
        (blockOf [(.name, "m")]) ∧
      copyMethod.SameOn (fun x => unplaced (id <$> x)) (blockOf [(.name, "m"), (.equal, "="), (.name, "copy")])
        (blockOf [(.name, "m"), (.equal, "="), (.string, "\"copy\"")]) := by
  have hn : PathOf [⟨.name, "m", none⟩] ⟨[⟨"m", none⟩], none⟩ := .mk rfl .nil
  have ho : AttrToken.terminal ⟨.leftParen, "(", none⟩ = .leftParen := rfl
  have hc : AttrToken.terminal ⟨.rightParen, ")", none⟩ = .rightParen := rfl
  have he : AttrToken.terminal ⟨.equal, "=", none⟩ = .equal := rfl
  have hagree := forms_agree hn hn ho hc he he none none
  refine ⟨hagree.1 (.single .copyMethod) (.path (by decide) (.mk rfl .nil)) (by decide),
    hagree.2.1 (.single .copyMethod), ?_⟩
  exact hagree.2.2 .copyMethod (t := ⟨.name, "copy", none⟩) rfl rfl (by decide) (by decide) (by decide) rfl rfl

end Adapter
end TypedErrors
