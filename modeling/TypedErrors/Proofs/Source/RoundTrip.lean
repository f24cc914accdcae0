import TypedErrors.Proofs.Source.Declared
import TypedErrors.Proofs.Source.Scanned

/-! # Printed files are loaded back

A file is printed as lexemes, and these are spelled with gaps of space and comments. Within the limits the text is
loaded as the file it prints, but for spans, if no string has the prefix: the prefix is read as a name of its own. -/

namespace TypedErrors

variable {limits : Limits} {file source : String} {is : List Import} {ds : List Declaration} {ls : List Lexeme}

theorem parseSource_of_prints (hprints : PrintsItems is ds ls) (hspelled : Spelled ls source.toList)
    (hraw : ∀ l ∈ ls, ¬ l.IsRaw) :
    ∃ f, parseSource file source = .ok f ∧
      f.unspanned = ⟨file, is.map Import.unspanned, ds.map Declaration.unspanned⟩ := by
  have hlen : ls.length ≤ source.length := String.length_toList ▸ hspelled.length_le
  have hfollows : Follows .items ls := (Parse.items_fits hprints).follows (by decide)
  obtain ⟨a, hfetch, ha⟩ := Lookahead.fetch_of_spelled (c := .ofString source) hspelled hraw hfollows none
  obtain ⟨f, b, hitems, hf, -⟩ := Parse.items_yields hprints (show ls.length + 2 ≤ source.length + 2 by omega) a ha
  exact ⟨f, bind_eq_ok.mpr ⟨a, hfetch, bind_eq_ok.mpr ⟨(f, b), hitems, rfl⟩⟩, hf⟩

theorem loadSource_of_prints (hprints : PrintsItems is ds ls) (hspelled : Spelled ls source.toList)
    (hraw : ∀ l ∈ ls, ¬ l.IsRaw) (hsize : source.length ≤ limits.maxSourceSize)
    (hcount : ds.length ≤ limits.maxDeclarations) :
    ∃ f, loadSource limits file source = .ok f ∧
      f.unspanned = ⟨file, is.map Import.unspanned, ds.map Declaration.unspanned⟩ := by
  obtain ⟨f, hparse, hf⟩ : ∃ f, parseSource file source = .ok f ∧ _ := parseSource_of_prints hprints hspelled hraw
  have hlen : f.declarations.length = ds.length := by
    have h := congrArg (fun f => f.declarations.length) hf
    simpa [SourceFile.unspanned] using h
  refine ⟨f, ?_, hf⟩
  rw [loadSource, if_neg (by omega), hparse]
  exact if_neg fun h => by omega

theorem unprefixed_of_loadSource {f : SourceFile} (h : loadSource limits file source = .ok f) :
    Unprefixed f.strings :=
  unprefixed_flatMap fun d hd => (scanned_of_loadSource h d hd).strings

theorem loadSource_prints_iff (hprints : PrintsItems is ds ls) (hspelled : Spelled ls source.toList)
    (hsize : source.length ≤ limits.maxSourceSize) (hcount : ds.length ≤ limits.maxDeclarations) :
    (∃ f, loadSource limits file source = .ok f ∧
      f.unspanned = ⟨file, is.map Import.unspanned, ds.map Declaration.unspanned⟩) ↔ ∀ l ∈ ls, ¬ l.IsRaw := by
  refine ⟨?_, fun hraw => loadSource_of_prints hprints hspelled hraw hsize hcount⟩
  rintro ⟨f, hload, hf⟩ l hl ⟨hstring, hprefix⟩
  have hstrings : f.strings = stringTexts ls := calc
    f.strings = f.unspanned.strings := f.strings_unspanned.symm
    _ = (SourceFile.mk file is ds).unspanned.strings := by rw [hf]; rfl
    _ = stringTexts ls := by rw [SourceFile.strings_unspanned, hprints.strings]; rfl
  have hmem : l.text ∈ stringTexts ls :=
    List.mem_map_of_mem (List.mem_filter.mpr ⟨hl, decide_eq_true hstring⟩)
  exact unprefixed_of_loadSource hload l.text (hstrings ▸ hmem) hprefix

/-! ### A string in an attribute block -/

/-- A struct `A` with the block `a(…)` around a string. -/
def attributed (s : String) : Declaration where
  ident := "A"
  visibility := .inherited
  shape := .struct .unit
  attrs := [⟨[⟨.name, "a", none⟩, ⟨.leftParen, "(", none⟩, ⟨.string, s, none⟩, ⟨.rightParen, ")", none⟩], none⟩]

def attributedLexemes (s : String) : List Lexeme :=
  [Terminal.hash.lexeme, Terminal.leftBracket.lexeme, .name "a", Terminal.leftParen.lexeme, ⟨.string, s⟩,
    Terminal.rightParen.lexeme, Terminal.rightBracket.lexeme, Terminal.structWord.lexeme, .name "A",
    Terminal.semicolon.lexeme]

def attributedSource (s : String) : String := "#[a(" ++ s ++ ")]\nstruct A;\n"

theorem prints_attributed (s : String) : PrintsItems [] [attributed s] (attributedLexemes s) := by
  have hident : Identifier "A" := ⟨by decide, by decide⟩
  have hstring : Balanced [⟨.string, s⟩] := .token (by simp [Site.treeStart]) rfl .nil
  have hgroup : Balanced [Terminal.leftParen.lexeme, ⟨.string, s⟩, Terminal.rightParen.lexeme] :=
    .group (t := .leftParen) rfl hstring .nil
  have htokens : Balanced ((attributed s).attrs.flatMap fun a => a.tokens.map AttrToken.lexeme) :=
    .token (l := .name "a") (by decide) rfl hgroup
  have houter : PrintsOuter (attributed s).attrs [] _ := .block (.mk htokens) .nil
  have hshape : (attributed s).shape.Prints "A" _ := .struct .unit
  exact .declaration (.mk houter .inherited hident hshape) .nil

theorem spelled_attributed {s : String} (hs : StringText s.toList) :
    Spelled (attributedLexemes s) (attributedSource s).toList := by
  have hname : ∀ {c : Char} {cs : List Char}, Scan.isNamePart c = false → NotName (c :: cs) := by
    rintro c cs hc d hd
    obtain rfl := Option.some.inj hd
    exact hc
  have h := Spelled.cons (l := Terminal.semicolon.lexeme) .nil rfl nofun (.nil (.space (c := '\n') (by decide) .nil))
  have h := Spelled.cons (l := .name "A") (.space (c := ' ') (by decide) .nil)
    (show NameText "A".toList by decide) (hname (by decide)) h
  have h := Spelled.cons (l := Terminal.structWord.lexeme) (.space (c := '\n') (by decide) .nil) rfl
    (fun _ => hname (by decide)) h
  have h := Spelled.cons (l := Terminal.rightBracket.lexeme) .nil rfl nofun h
  have h := Spelled.cons (l := Terminal.rightParen.lexeme) .nil rfl nofun h
  have h := Spelled.cons (l := ⟨.string, s⟩) .nil hs nofun h
  have h := Spelled.cons (l := Terminal.leftParen.lexeme) .nil rfl nofun h
  have h := Spelled.cons (l := .name "a") .nil (show NameText "a".toList by decide) (hname (by decide)) h
  have h := Spelled.cons (l := Terminal.leftBracket.lexeme) .nil rfl nofun h
  have h := Spelled.cons (l := Terminal.hash.lexeme) .nil rfl nofun h
  rw [attributedSource, String.toList_append, String.toList_append, List.append_assoc]
  exact h

theorem quotedText_x : QuotedText ['"', 'x', '"'] :=
  .mk (.plain (c := 'x') (by decide) (by decide) (by decide) .nil)

theorem attributed_quoted_loaded :
    ∃ f, loadSource {} "<string>" (attributedSource "\"x\"") = .ok f ∧
      f.unspanned = ⟨"<string>", [], [(attributed "\"x\"").unspanned]⟩ := by
  have hspelled := spelled_attributed (s := "\"x\"") (.quoted quotedText_x)
  exact (loadSource_prints_iff (prints_attributed _) hspelled (by decide) (by decide)).mpr (by decide)

/-- The prefix is read as a name, and the string without it. -/
theorem attributed_raw_not_loaded :
    PrintsItems [] [attributed "r\"x\""] (attributedLexemes "r\"x\"") ∧
      Spelled (attributedLexemes "r\"x\"") (attributedSource "r\"x\"").toList ∧
      ¬ ∃ f, loadSource {} "<string>" (attributedSource "r\"x\"") = .ok f ∧
        f.unspanned = ⟨"<string>", [], [(attributed "r\"x\"").unspanned]⟩ := by
  refine ⟨prints_attributed _, spelled_attributed (s := "r\"x\"") (.raw quotedText_x), ?_⟩
  rintro ⟨f, hload, hf⟩
  have hstrings : (loadSource {} "<string>" (attributedSource "r\"x\"")).toOption.map SourceFile.strings =
      some ["\"x\""] := by decide +kernel
  rw [hload] at hstrings
  have hloaded : f.unspanned.strings = ["\"x\""] := f.strings_unspanned.trans (Option.some.inj hstrings)
  rw [hf] at hloaded
  exact absurd hloaded (by decide +kernel)

end TypedErrors
