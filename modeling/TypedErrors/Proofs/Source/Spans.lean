import TypedErrors.Proofs.Attribute.Spans
import TypedErrors.Proofs.Source.Items
import TypedErrors.Proofs.Source.Placed

/-! # Spans in a loaded file

Every span in a file that is loaded delimits the text that it stands for, and the tokens of an attribute block follow one
another within the block (`loadSource_stands`). -/

namespace TypedErrors

variable {α : Type} {file : String} {source before text : List Char}

/-! ### Blocks -/

def Fields.blocks (fs : Fields Field) : List RawAttribute := fs.values.flatMap Field.attrs

def Shape.blocks : Shape → List RawAttribute
  | .struct fs | .union fs => fs.blocks
  | .enum vs => vs.flatMap fun v => v.attrs ++ v.fields.blocks

/-- The attribute blocks of a declaration and of all that is in it. -/
def Declaration.blocks (d : Declaration) : List RawAttribute := d.attrs ++ d.shape.blocks

theorem InOrder.exists {Gap : List Char → Prop} {Stands : List Char → List Char → α → Prop} {xs : List α} {x : α}
    (h : InOrder Gap Stands before text xs) (hx : x ∈ xs) : ∃ before text, Stands before text x := by
  induction h with
  | nil => cases hx
  | cons _ hstands _ ih =>
    rcases List.mem_cons.mp hx with rfl | hx
    · exact ⟨_, _, hstands⟩
    · exact ih hx

section
variable {a : RawAttribute}

theorem Header.exists {attrs : List RawAttribute} {docs : List String} (h : Header file source before text attrs docs)
    (ha : a ∈ attrs) : ∃ before text, a.Stands file source before text := by
  induction h with
  | nil => cases ha
  | block hstands _ _ ih =>
    rcases List.mem_cons.mp ha with rfl | ha
    · exact ⟨_, _, hstands⟩
    · exact ih ha
  | doc _ _ _ _ ih => exact ih ha

theorem Fields.Stands.exists_block {fs : Fields Field} (h : fs.Stands file source before text) (ha : a ∈ fs.blocks) :
    ∃ before text, a.Stands file source before text := by
  obtain ⟨f, hf, ha⟩ := List.mem_flatMap.mp ha
  obtain ⟨before, text, hstands⟩ : ∃ before text, f.Stands file source before text := by
    cases h with
    | unit => cases hf
    | named _ hfields => exact hfields.exists (by simpa [Fields.values, Fields.entries] using hf)
    | unnamed _ hfields => exact hfields.exists (by simpa [Fields.values, Fields.entries] using hf)
  cases hstands with
  | mk hheader => exact hheader.exists ha

theorem Declaration.Stands.exists_block {d : Declaration} (h : d.Stands file source before text) (ha : a ∈ d.blocks) :
    ∃ before text, a.Stands file source before text := by
  obtain ⟨hheader, -, -, -, -, hshape⟩ := h
  rcases List.mem_append.mp ha with ha | ha
  · exact hheader.exists ha
  generalize d.shape = shape at hshape ha
  cases hshape with
  | unit => cases ha
  | named h => exact h.exists_block ha
  | unnamed h => exact h.exists_block ha
  | union h => exact h.exists_block ha
  | enum _ h =>
    obtain ⟨v, hv, ha⟩ := List.mem_flatMap.mp ha
    obtain ⟨_, _, hheader, -, hfields⟩ := h.exists hv
    rcases List.mem_append.mp ha with ha | ha
    · exact hheader.exists ha
    · exact hfields.exists_block ha

end

/-! ### Order of spans -/

def Position.lex (p : Position) : Nat ×ₗ Nat := toLex (p.line, p.column)

@[simp] theorem Span.start_spanTo (p q : Position) : (p.spanTo file q).start = p.lex := rfl

@[simp] theorem Span.stop_spanTo (p q : Position) : (p.spanTo file q).stop = q.lex := rfl

theorem Position.lex_le (before text : List Char) : (behind before).lex ≤ (behind (before ++ text)).lex := by
  rw [← past_eq_behind, ← past_eq_behind, past_append]
  obtain ⟨hline, hcolumn⟩ := le_past (past {} before) text
  rw [lex, lex, Prod.Lex.toLex_le_toLex]
  rcases Nat.lt_or_eq_of_le hline with hlt | heq
  · exact .inl hlt
  · exact .inr ⟨heq, by rw [hcolumn heq.symm]; exact Nat.le_add_right _ _⟩

open AttrParse

/-- Tokens in order have spans within those of the text. -/
theorem InOrder.bounds {ts : List AttrToken} (h : InOrder Blank (AttrToken.Stands file source) before text ts) :
    ∀ t ∈ ts, ∃ a ∈ t.span, a.file = file ∧ (Position.behind before).lex ≤ a.start ∧ a.start ≤ a.stop ∧
      a.stop ≤ (Position.behind (before ++ text)).lex := by
  induction h with
  | nil => intro t ht; cases ht
  | @cons before gap text rest t ts _ hx _ ih =>
    refine List.forall_mem_cons.mpr ⟨⟨_, hx.span.eq, rfl, Position.lex_le _ _, Position.lex_le _ _, ?_⟩, fun u hu => ?_⟩
    · have h := Position.lex_le (before ++ (gap ++ text)) rest
      simpa only [List.append_assoc, Span.stop_spanTo] using h
    · obtain ⟨a, ha, hfile, hstart, hforward, hstop⟩ := ih u hu
      refine ⟨a, ha, hfile, (Position.lex_le _ _).trans hstart, hforward, ?_⟩
      simpa only [List.append_assoc] using hstop

theorem InOrder.increasing {ts : List AttrToken} (h : InOrder Blank (AttrToken.Stands file source) before text ts) :
    Increasing ts := by
  refine ⟨fun t ht u hu a ha b hb => ?_, fun t ht a ha => ?_, ?_⟩
  · obtain ⟨_, ha', hfile, -⟩ := h.bounds t ht
    obtain ⟨_, hb', hfile', -⟩ := h.bounds u hu
    rw [Option.mem_unique ha ha', Option.mem_unique hb hb', hfile, hfile']
  · obtain ⟨_, ha', -, -, hforward, -⟩ := h.bounds t ht
    rwa [Option.mem_unique ha ha']
  · induction h with
    | nil => exact .nil
    | cons _ hx hrest ih =>
      refine .cons (fun u hu a ha b hb => ?_) ih
      obtain ⟨_, hb', -, hstart, -⟩ := hrest.bounds u hu
      rw [Option.mem_unique hb hb', Option.mem_unique ha hx.span.eq]
      simpa only [List.append_assoc, Span.stop_spanTo] using hstart

theorem RawAttribute.Stands.increasing {a : RawAttribute} (h : a.Stands file source before text) :
    Increasing a.tokens ∧ ∀ t ∈ a.tokens, Contains a.span t.span := by
  obtain @⟨gap, inner, _, -, htokens, hspan⟩ := h
  refine ⟨htokens.increasing, fun t ht => ?_⟩
  obtain ⟨b, hb, hfile, hstart, -, hstop⟩ := htokens.bounds t ht
  refine ⟨_, hspan.eq, b, hb, hfile.symm, (Position.lex_le _ _).trans hstart, hstop.trans ?_⟩
  have h := Position.lex_le (before ++ '#' :: (gap ++ '[' :: inner)) [']']
  simpa using h

/-! ### Loaded files -/

variable {limits : Limits}

theorem itemsStand_of_loadSource {source : String} {f : SourceFile} (h : loadSource limits file source = .ok f) :
    ItemsStand file source.toList [] source.toList f.imports f.declarations := by
  obtain ⟨a, b, hfetch, hitems⟩ := run_of_loadSource h
  have hstart := Cursor.at_ofString source
  obtain ⟨gap, hgap, hfrom⟩ := Lookahead.from_of_fetch hstart hfetch
  obtain ⟨ts, hts, hend, is, ds, his, hds, hstand⟩ :=
    Parse.items_derives source.toList _ [] [] a.head? a a f b .nil rfl (Lookahead.spelt_of_fetch hfetch) hitems
  obtain ⟨text, hlaid, hlast⟩ := hts.laid hfrom
  -- the items end where no token is ahead, which is at the end of the source
  cases hlast with
  | token ht => simp [Lookahead.head?, ht] at hend
  | ended _ hafter hrest =>
    rw [his, hds]
    have h := hstand [] gap text _ hgap hlaid hrest
    have hsource := hafter.source
    simp only [List.nil_append, List.append_assoc] at hsource
    rwa [← hsource] at h

theorem ItemsStand.exists {is : List Import} {ds : List Declaration} {d : Declaration}
    (h : ItemsStand file source before text is ds) (hd : d ∈ ds) : ∃ before text, d.Stands file source before text := by
  induction h with
  | nil => cases hd
  | import_ _ _ _ ih => exact ih hd
  | declaration _ hstands _ ih =>
    rcases List.mem_cons.mp hd with rfl | hd
    · exact ⟨_, _, hstands⟩
    · exact ih hd

/-- Every span in a file that is loaded delimits the text that it stands for, and the tokens of a block follow one
another within it. -/
theorem loadSource_stands {source : String} {f : SourceFile} (h : loadSource limits file source = .ok f) :
    ItemsStand file source.toList [] source.toList f.imports f.declarations ∧
      ∀ d ∈ f.declarations, ∀ a ∈ d.blocks, Increasing a.tokens ∧ ∀ t ∈ a.tokens, Contains a.span t.span := by
  have hitems := itemsStand_of_loadSource h
  refine ⟨hitems, fun d hd a ha => ?_⟩
  obtain ⟨_, _, hdeclaration⟩ := hitems.exists hd
  obtain ⟨_, _, hblock⟩ := hdeclaration.exists_block ha
  exact hblock.increasing

/-- A source with comments between its tokens, and over several lines. -/
def placedSource : String :=
  "/* two\nlines */ use a.b as c; // and one\n\n#[x(y = \"z\")]\npub enum E \x7b #[w]\n  A(#[v] c), \x7d\n"

/-- The import is on the second line, the blocks on the last three, and the declaration is named on the fifth. -/
theorem placedSource_stands : ∃ f, loadSource {} "f" placedSource = .ok f ∧
    f.imports.map Import.span ++ f.declarations.map Declaration.span ++
      (f.declarations.flatMap Declaration.blocks).map RawAttribute.span =
        [some ⟨"f", 2, 10, some 2, some 23⟩, some ⟨"f", 5, 10, some 5, some 11⟩, some ⟨"f", 4, 1, some 4, some 14⟩,
          some ⟨"f", 5, 14, some 5, some 18⟩, some ⟨"f", 6, 5, some 6, some 9⟩] ∧
    ItemsStand "f" placedSource.toList [] placedSource.toList f.imports f.declarations ∧
    ∀ d ∈ f.declarations, ∀ a ∈ d.blocks, Increasing a.tokens ∧ ∀ t ∈ a.tokens, Contains a.span t.span := by
  have hspans : (loadSource {} "f" placedSource).toOption.map (fun f => f.imports.map Import.span ++
      f.declarations.map Declaration.span ++ (f.declarations.flatMap Declaration.blocks).map RawAttribute.span) =
        some [some ⟨"f", 2, 10, some 2, some 23⟩, some ⟨"f", 5, 10, some 5, some 11⟩, some ⟨"f", 4, 1, some 4, some 14⟩,
          some ⟨"f", 5, 14, some 5, some 18⟩, some ⟨"f", 6, 5, some 6, some 9⟩] := by
    decide +kernel
  cases hload : loadSource {} "f" placedSource with
  | error e =>
    rw [hload] at hspans
    cases hspans
  | ok f =>
    rw [hload] at hspans
    exact ⟨f, rfl, Option.some.inj hspans, loadSource_stands hload⟩

end TypedErrors
