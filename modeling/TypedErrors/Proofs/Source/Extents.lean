import TypedErrors.Proofs.Source.Parts
import TypedErrors.Proofs.Source.Print
import TypedErrors.Proofs.Source.Words

/-! # Extents of attribute blocks and fields

What has a span stands in the source as the text that its span delimits. An attribute block stands there with its tokens
one after another between its brackets, and a field with its blocks in front of the words that it is written in. -/

namespace TypedErrors

variable {α β : Type} {file : String} {source before text front rest : List Char} {ts us vs : List Token} {t u : Token}

/-! ### Things in order -/

/-- The things stand one after another in the text, which comes just after `before`, with gaps around them. -/
inductive InOrder (Gap : List Char → Prop) (Stands : List Char → List Char → α → Prop) :
    (before text : List Char) → List α → Prop
  | nil {before gap : List Char} (hgap : Gap gap) : InOrder Gap Stands before gap []
  | cons {before gap text rest : List Char} {x : α} {xs : List α} (hgap : Gap gap) (hx : Stands (before ++ gap) text x)
      (h : InOrder Gap Stands (before ++ (gap ++ text)) rest xs) :
      InOrder Gap Stands before (gap ++ (text ++ rest)) (x :: xs)

/-- With anything around them. -/
abbrev Within (Stands : List Char → List Char → α → Prop) : (before text : List Char) → List α → Prop :=
  InOrder (fun _ => True) Stands

section
variable {Gap : List Char → Prop} {Stands : List Char → List Char → α → Prop} {xs : List α} {x : α}

theorem InOrder.map {f : α → β} {Stands' : List Char → List Char → β → Prop} (h : InOrder Gap Stands before text xs)
    (hf : ∀ before text x, Stands before text x → Stands' before text (f x)) :
    InOrder Gap Stands' before text (xs.map f) := by
  induction h with
  | nil hgap => exact .nil hgap
  | cons hgap hx _ ih => exact .cons hgap (hf _ _ _ hx) ih

theorem Within.prepend (h : Within Stands (before ++ front) text xs) : Within Stands before (front ++ text) xs := by
  generalize hbefore : before ++ front = b at h
  cases h with
  | nil => exact .nil trivial
  | @cons _ gap text rest x xs _ hx h =>
    subst hbefore
    rw [← List.append_assoc]
    refine .cons trivial (List.append_assoc before front gap ▸ hx) ?_
    simpa only [List.append_assoc] using h

theorem Within.cons (hx : Stands before front x) (h : Within Stands (before ++ front) text xs) :
    Within Stands before (front ++ text) (x :: xs) := by
  have hx : Stands (before ++ []) front x := by rwa [List.append_nil]
  exact InOrder.cons trivial hx h

end

/-! ### Attribute blocks -/

/-- The text is that of the token, and its span delimits the text. -/
structure AttrToken.Stands (file : String) (source before text : List Char) (t : AttrToken) : Prop where
  spelled : text = t.text.toList
  ne_nil : text ≠ []
  span : Delimits file source before text t.span

/-- The text is a block, and its span delimits the text. The tokens stand in it one after another between the brackets,
with only space and comments around them. -/
inductive RawAttribute.Stands (file : String) (source before : List Char) : List Char → RawAttribute → Prop
  | mk {gap inner : List Char} {a : RawAttribute} (hgap : Blank gap)
      (htokens : InOrder Blank (AttrToken.Stands file source) (before ++ '#' :: (gap ++ ['['])) inner a.tokens)
      (hspan : Delimits file source before ('#' :: (gap ++ '[' :: (inner ++ [']']))) a.span) :
      Stands file source before ('#' :: (gap ++ '[' :: (inner ++ [']']))) a

/-- The text is the attribute blocks and the doc comments in front of something, each with space and comments behind
it. -/
inductive Header (file : String) (source : List Char) :
    (before text : List Char) → List RawAttribute → List String → Prop
  | nil {before : List Char} : Header file source before [] [] []
  | block {before text gap rest : List Char} {a : RawAttribute} {attrs : List RawAttribute} {docs : List String}
      (ha : a.Stands file source before text) (hgap : Blank gap)
      (h : Header file source (before ++ (text ++ gap)) rest attrs docs) :
      Header file source before (text ++ gap ++ rest) (a :: attrs) docs
  | doc {before gap rest : List Char} {s text : String} {attrs : List RawAttribute} {docs : List String}
      (hs : PrintsDoc s ⟨.doc, text⟩) (hline : '\n' ∉ text.toList) (hgap : Blank gap)
      (h : Header file source (before ++ (text.toList ++ gap)) rest attrs docs) :
      Header file source before (text.toList ++ gap ++ rest) attrs (s :: docs)

/-- Tokens that are laid are kept one after another. -/
theorem Laid.kept {gap : List Char} (h : Laid source (before ++ gap) text ts) (hgap : Blank gap) :
    InOrder Blank (AttrToken.Stands file source) before (gap ++ text) (ts.map (Token.kept file)) := by
  induction ts generalizing before gap text with
  | nil =>
    cases h
    rw [List.append_nil]
    exact .nil hgap
  | cons t ts ih =>
    have hprefix := h.isPrefix
    obtain _ | ⟨hstart, hstop, hne, hgap', h⟩ := h
    rw [List.append_assoc t.text.toList]
    refine .cons hgap ⟨rfl, hne, ?_, ?_⟩ (ih ?_ hgap')
    · rw [List.append_assoc t.text.toList, ← List.append_assoc] at hprefix
      exact (List.prefix_append _ _).trans hprefix
    · rw [Token.kept, Token.span, hstart, hstop]
    · simpa only [List.append_assoc] using h

/-- Where the tokens are laid `P` holds of the text from the first to the last of them, behind which are only space and
comments. -/
def LaidAs (source : List Char) (ts : List Token) (P : List Char → List Char → Prop) : Prop :=
  ∀ before text, Laid source before text ts → ∃ front gap, text = front ++ gap ∧ Blank gap ∧ P before front

/-- What is covered first, and what is laid behind it. -/
theorem LaidAs.split {P : List Char → List Char → Prop} (h : LaidAs source us P)
    (hlaid : Laid source before text (us ++ vs)) : ∃ front gap rest, text = front ++ (gap ++ rest) ∧ Blank gap ∧
      P before front ∧ Laid source (before ++ (front ++ gap)) rest vs := by
  obtain ⟨_, rest, rfl, hfront, hrest⟩ := hlaid.append
  obtain ⟨front, gap, rfl, hgap, hP⟩ := h _ _ hfront
  exact ⟨front, gap, rest, List.append_assoc .., hgap, hP, hrest⟩

theorem laidAs_token : LaidAs source [t] fun _ text => text = t.text.toList := by
  intro before text h
  obtain _ | @⟨_, gap, _, _, _, -, -, -, hgap, h⟩ := h
  cases h
  exact ⟨t.text.toList, gap, List.append_nil _, hgap, rfl⟩

/-- The tokens of a block are laid as the block. -/
theorem stands_of_block {hash opener closer : Token} (hhash : hash.text = "#") (hopener : opener.text = "[")
    (hcloser : closer.text = "]") : LaidAs source ([hash] ++ ([opener] ++ (us ++ [closer])))
      (RawAttribute.Stands file source · · ⟨us.map (Token.kept file), hash.start.spanTo file closer.stop⟩) := by
  intro before text h
  rw [List.singleton_append, List.singleton_append] at h
  have hprefix := h.isPrefix
  obtain _ | @⟨_, gap, _, _, _, hstart, -, -, hgap, h⟩ := h
  obtain _ | @⟨_, gap', _, _, _, -, -, -, hgap', h⟩ := h
  obtain ⟨inner, rest, rfl, hinner, hrest⟩ := h.append
  obtain _ | @⟨_, gap'', _, _, _, -, hstop, -, hgap'', hrest⟩ := hrest
  cases hrest
  have hhash : hash.text.toList = ['#'] := by rw [hhash]; rfl
  have hopener : opener.text.toList = ['['] := by rw [hopener]; rfl
  have hcloser : closer.text.toList = [']'] := by rw [hcloser]; rfl
  rw [hhash, hopener] at hinner
  rw [hhash, hopener, hcloser] at hstop hprefix ⊢
  refine ⟨'#' :: (gap ++ '[' :: ((gap' ++ inner) ++ [']'])), gap'', by simp, hgap'', .mk hgap ?_ ⟨?_, ?_⟩⟩
  · refine Laid.kept ?_ hgap'
    simpa using hinner
  · refine .trans ⟨gap'', ?_⟩ hprefix
    simp
  · rw [hstart, hstop]
    simp

namespace Parse

/-! ### Derivations -/

variable (source)

/-- The last token closes the outermost bracket. -/
theorem attributeTokens_derives : ∀ (n : Nat) (k : Terminal) (outer : List Terminal) (acc : List AttrToken)
    (ahead : Option Terminal), Derives [] ahead (attributeTokens file n (k :: outer) acc) fun ts _ as =>
      ∃ us t, ts = us ++ [t] ∧ as = acc.reverse ++ us.map (Token.kept file) ∧
        (k :: outer).getLast? = some t.terminal ∧ Scan.Spelling t.terminal t.text.toList
  | 0, _, _, _, _ => .exhausted
  | n + 1, k, outer, acc, ahead => by
    -- a token that is kept leaves the outermost closer as it is
    have htake (site : Site) (k' : Terminal) (outer' : List Terminal)
        (hlast : (k' :: outer').getLast? = (k :: outer).getLast?) : Derives [] ahead (do
          let t ← shift site
          attributeTokens file n (k' :: outer') (⟨t.terminal, t.text, t.span file⟩ :: acc)) fun ts _ as =>
            ∃ us t, ts = us ++ [t] ∧ as = acc.reverse ++ us.map (Token.kept file) ∧
              (k :: outer).getLast? = some t.terminal ∧ Scan.Spelling t.terminal t.text.toList := by
      refine .bind_shift fun t _ _ _ _ => .part (attributeTokens_derives n k' outer' _ _) ?_
      rintro _ _ _ ⟨us, u, rfl, rfl, hu, hspelling⟩
      exact ⟨t :: us, u, rfl, by simp [Token.kept], hlast ▸ hu, hspelling⟩
    refine .bind_check fun _ => .bind_peek ?_
    split
    · next hk =>
      split
      · next hempty =>
        refine .bind_shift fun t _ ht hspelling _ => .pure ⟨[], t, rfl, (List.append_nil _).symm, ?_, hspelling⟩
        rw [List.isEmpty_iff.mp hempty, List.getLast?_singleton, ← hk, ht]
      · next hne =>
        obtain ⟨k', outer', rfl⟩ := List.exists_cons_of_ne_nil (mt List.isEmpty_iff.mpr hne)
        exact htake .treeNext k' outer' List.getLast?_cons_cons.symm
    · split
      · exact htake _ _ _ List.getLast?_cons_cons
      · exact htake _ _ _ rfl

theorem attributeBlock_derives (n : Nat) : Derives [] (some .hash) (attributeBlock file n) fun ts _ a =>
    LaidAs source ts (a.Stands file source · ·) := by
  refine .bind_here fun start => .bind_shift fun hash _ hhash hspelling hadmits => ?_
  have hhash := text_of_terminal "#" (.inl rfl) hhash hspelling
  obtain rfl := ahead_of_only hadmits
  refine .bind_shift fun opener _ hopener hspelling' _ => .bind_part (attributeTokens_derives n _ [] [] _) ?_
  have hopener := text_of_terminal "[" (.inl rfl) hopener hspelling'
  rintro _ _ _ ⟨us, closer, rfl, rfl, hcloser, hspelling''⟩
  have hcloser := text_of_terminal "]" (.inl rfl) hcloser hspelling''
  rw [← List.append_assoc]
  refine .bind_there (.pure ⟨hash, _, by simp only [List.nil_append, List.append_assoc, List.singleton_append]; rfl, ?_⟩)
  rintro rfl
  rw [List.nil_append, List.append_assoc, List.append_assoc]
  exact stands_of_block hhash hopener hcloser

theorem printsDoc_docText (h : DocText t.text.toList) :
    PrintsDoc (docText t) ⟨.doc, t.text⟩ ∧ '\n' ∉ t.text.toList := by
  generalize htext : t.text.toList = cs at h
  obtain @⟨body, hbody⟩ := h
  have ht : t.text = "///" ++ String.ofList body := by
    rw [← String.toList_inj, htext]
    simp only [String.toList_append, String.toList_ofList]
    rfl
  refine ⟨?_, by simpa using hbody⟩
  have hdrop : t.text.toList.drop 3 = body := by rw [htext]; rfl
  rw [docText, hdrop]
  split
  · next cs =>
    have hspaced := PrintsDoc.spaced (s := String.ofList cs)
    rwa [show "/// " ++ String.ofList cs = t.text by
      rw [ht, ← String.toList_inj]
      simp only [String.toList_append, String.toList_ofList]
      rfl] at hspaced
  · next hne =>
    rw [ht]
    refine .bare ?_
    rw [String.toList_ofList]
    intro hspace
    obtain ⟨cs, rfl⟩ := List.head?_eq_some_iff.mp hspace
    exact hne cs rfl

/-- What is behind attribute blocks and doc comments is none of them. -/
theorem outer_derives : ∀ (n : Nat) (attrs : List RawAttribute) (docs : List String) (ahead : Option Terminal),
    Derives [] ahead (outer file n attrs docs) fun ts k p => (k ≠ some .hash ∧ k ≠ some .doc) ∧
      ∃ as ds, p = (attrs.reverse ++ as, docs.reverse ++ ds) ∧
        ∀ before text, Laid source before text ts → Header file source before text as ds
  | 0, _, _, _ => .exhausted
  | n + 1, attrs, docs, ahead => by
    refine .bind_peek ?_
    split
    · refine .bind_part (attributeBlock_derives source n) fun us _ a ha => .part (outer_derives n _ _ _) ?_
      rintro vs k _ ⟨hk, as, ds, rfl, hrest⟩
      refine ⟨hk, a :: as, ds, by simp, fun before text hlaid => ?_⟩
      obtain ⟨block, gap, rest, rfl, hgap, hblock, hvs⟩ := ha.split hlaid
      rw [← List.append_assoc]
      exact .block hblock hgap (hrest _ _ hvs)
    · refine .bind_shift fun t _ ht hspelling _ => .part (outer_derives n _ _ _) ?_
      rintro vs k _ ⟨hk, as, ds, rfl, hrest⟩
      refine ⟨hk, as, docText t :: ds, by simp, fun before text hlaid => ?_⟩
      obtain _ | ⟨-, -, -, hgap, hvs⟩ := hlaid
      obtain ⟨hdoc, hline⟩ := printsDoc_docText (hspelling.2 (Option.some.inj ht).symm)
      exact .doc hdoc hline hgap (hrest _ _ hvs)
    · next hhash hdoc =>
      refine .pure ⟨⟨hhash, hdoc⟩, [], [], by simp, fun before text hlaid => ?_⟩
      cases hlaid
      exact .nil

/-- All blocks and doc comments in front of something. -/
theorem header_derives (n : Nat) (ahead : Option Terminal) : Derives [] ahead (outer file n [] []) fun ts k p =>
    (k ≠ some .hash ∧ k ≠ some .doc) ∧
      ∀ before text, Laid source before text ts → Header file source before text p.1 p.2 := by
  refine (outer_derives source n [] [] ahead).mono ?_
  rintro ts k _ ⟨hk, as, ds, rfl, h⟩
  exact ⟨hk, h⟩

end Parse

/-! ### Fields -/

def Field.words (f : Field) : List String :=
  f.visibility.words ++ (f.name.elim [] fun s => [s, ":"]) ++ f.type.words

/-- The text is a field, from its blocks and doc comments to the end of its type, and its span delimits the text. -/
inductive Field.Stands (file : String) (source before : List Char) : List Char → Field → Prop
  | mk {front rest : List Char} {ws : List String} {f : Field}
      (hheader : Header file source before front f.attrs f.docs) (hwords : WrittenAs f.words ws)
      (hwritten : Spaced ws rest) (hspan : Delimits file source before (front ++ rest) f.span) :
      Stands file source before (front ++ rest) f

theorem TypeExpr.words_ne_nil (e : TypeExpr) : e.words ≠ [] := by
  obtain ⟨_ | _, more⟩ := e <;> exact List.cons_ne_nil _ _

/-- The tokens of a field are laid as the field, if it starts where the first of them does. -/
theorem stands_of_field {os ws : List Token} {last : Token} {start : Position} {f : Field}
    (hos : ∀ before text, Laid source before text os → Header file source before text f.attrs f.docs)
    (hws : WrittenAs f.words ((ws ++ [last]).map Token.text)) (hspan : f.span = some (start.spanTo file last.stop)) :
    ∃ t us, os ++ (ws ++ [last]) = t :: us ∧
      (start = t.start → LaidAs source (os ++ (ws ++ [last])) (f.Stands file source · ·)) := by
  have hne : os ++ (ws ++ [last]) ≠ [] :=
    List.append_ne_nil_of_right_ne_nil _ (List.append_ne_nil_of_right_ne_nil _ (List.cons_ne_nil _ _))
  obtain ⟨t, us, hts⟩ := List.exists_cons_of_ne_nil hne
  refine ⟨t, us, hts, ?_⟩
  rintro rfl before text h
  have hprefix := h.isPrefix
  have hstart := Laid.start (hts ▸ h)
  obtain ⟨front, rest, rfl, hfront, hrest⟩ := h.append
  obtain ⟨core, gap, rfl, hgap, hwritten, hstop⟩ := hrest.spaced
  refine ⟨front ++ core, gap, (List.append_assoc ..).symm, hgap, .mk (hos _ _ hfront) hws hwritten ⟨?_, ?_⟩⟩
  · refine .trans ⟨gap, ?_⟩ hprefix
    simp only [List.append_assoc]
  · rw [hspan, hstart, hstop, List.append_assoc]

namespace Parse

variable (source)

theorem typeExpr_derives_last (n : Nat) (ahead : Option Terminal) : Derives [] ahead (typeExpr n) fun ts _ e =>
    ∃ us t, ts = us ++ [t] ∧ WrittenAs e.words ((us ++ [t]).map Token.text) := by
  refine (typeExpr_derives n ahead).mono fun ts _ e he => ?_
  have hne : ts ≠ [] := by
    rintro rfl
    exact he.ne_nil e.words_ne_nil rfl
  obtain ⟨us, t, rfl⟩ := (List.eq_nil_or_concat' ts).resolve_left hne
  exact ⟨us, t, rfl, he⟩

theorem namedField_derives (n : Nat) (ahead : Option Terminal) : Derives [] ahead (namedField file n) fun ts _ p =>
    LaidAs source ts (p.2.Stands file source · ·) := by
  refine .bind_here fun start => .bind_part (header_derives source n _) ?_
  rintro os k ⟨attrs, docs⟩ ⟨-, hos⟩
  refine .bind_check fun _ => .bind_part (visibility_derives n _) fun vs k' v hv => ?_
  refine .bind_shift fun name _ _ _ hadmits => ?_
  obtain rfl := ahead_of_only hadmits
  refine .bind_shift fun colon _ hcolon hspelling _ => .bind_part (typeExpr_derives_last n _) ?_
  rintro _ _ e ⟨ts, last, rfl, he⟩
  rw [← List.append_assoc]
  refine .bind_there (.pure ?_)
  have hwords : WrittenAs (v.words ++ [name.text, ":"] ++ e.words)
      (((vs ++ ([name] ++ ([colon] ++ ts))) ++ [last]).map Token.text) := by
    have h := (hv.1.append (.word (w := name.text) (.refl [":"]))).append he
    simpa [text_of_terminal ":" (.inl rfl) hcolon hspelling] using h
  have h := stands_of_field (f := ⟨some name.text, e, attrs, v, docs, start.spanTo file last.stop⟩) hos hwords rfl
  simpa only [List.nil_append, List.append_assoc] using h

theorem unnamedField_derives (n : Nat) (ahead : Option Terminal) : Derives [] ahead (unnamedField file n) fun ts _ f =>
    LaidAs source ts (f.Stands file source · ·) := by
  refine .bind_here fun start => .bind_part (header_derives source n _) ?_
  rintro os k ⟨attrs, docs⟩ ⟨-, hos⟩
  refine .bind_check fun _ => .bind_part (visibility_derives n _) fun vs k' v hv => ?_
  refine .bind_part (typeExpr_derives_last n _) ?_
  rintro _ _ e ⟨ts, last, rfl, he⟩
  rw [← List.append_assoc]
  refine .bind_there (.pure ?_)
  have hwords : WrittenAs (v.words ++ [] ++ e.words) (((vs ++ ts) ++ [last]).map Token.text) := by
    have h := hv.1.append he
    simpa using h
  have h := stands_of_field (f := ⟨none, e, attrs, v, docs, start.spanTo file last.stop⟩) hos hwords rfl
  simpa only [List.nil_append, List.append_assoc] using h

end Parse
end TypedErrors
