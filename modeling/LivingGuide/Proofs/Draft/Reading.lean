import LivingGuide.Manifest.Reader
import LivingGuide.Proofs.Draft.Source
import LivingGuide.Proofs.Text
import LivingGuide.Proofs.Yaml.Reader

/-!
# A draft reads back

`text` writes a name between double quotes and escapes nothing in it.  So `Manifest.parse` gives back
the directories of a draft as long as every character of their names stands for itself there:
`text_reads_back`.  The proof follows the three layers of the reader: the tokens of a draft, two for
each line that names a directory; the events that these tokens stand for; and the manifest that the
document sets.  `text_misread` has a name for each way to go wrong.
-/

namespace LivingGuide.Draft

open Yaml Yaml.Reader

variable {position : Position} {rest : List Char} {tokens : List Token} {indent : Int}
  {outer : List Int} {place : Option KeyPlace} {directory : String} {directories : List String}
  {fuel : Nat}

/-! ### Tokens -/

/-- Two tokens for each directory. -/
def entryTokens (directories : List String) : List Token :=
  directories.flatMap fun directory => [.entry, .scalar false directory]

/-- The characters of the lines that name directories. -/
def entryText (directories : List String) : List Char :=
  directories.flatMap fun directory =>
    ' ' :: ' ' :: '-' :: ' ' :: '"' :: (directory.toList ++ ['"', '\n'])

theorem arrive?_entry (hindent : indent ≤ 2) (hplace : Passed place position.line) :
    (inBlock position ('\n' :: ' ' :: ' ' :: '-' :: ' ' :: rest) tokens indent outer place false).arrive? =
      some (inBlock ⟨position.line + 1, 2, 2⟩ ('-' :: ' ' :: rest) tokens indent outer none true) := by
  have hskip : skipToToken false false position ('\n' :: ' ' :: ' ' :: '-' :: ' ' :: rest) =
      (⟨⟨position.line + 1, 2, 2⟩, '-' :: ' ' :: rest⟩, true) := by
    rw [skipToToken_break, skipToToken_space, skipToToken_space,
      skipToToken_stop (by decide) (by decide) (by decide) (by decide)]
    rfl
  exact arrive?_inBlock hskip (keepPlace?_of_passed hplace (Nat.lt_succ_self _)) (closeRight_of_le hindent)

theorem next?_first_entry (hplace : Passed place position.line) :
    (inBlock position ('\n' :: ' ' :: ' ' :: '-' :: ' ' :: rest) tokens 0 [-1] place false).next? =
      some (inBlock ⟨position.line + 1, 3, 3⟩ (' ' :: rest) (.entry :: .sequenceOpen :: tokens) 2 [0, -1]
        none true) := by
  rw [next?_entry (arrive?_entry (by decide) hplace) rfl rfl]
  simp [inBlock, readEntry?, inFlow, openBlock, Reader.insert, column, dropPlace?, emit,
    Cursor.advance, Position.after, Char.utf8Size]

theorem next?_later_entry (hplace : Passed place position.line) :
    (inBlock position ('\n' :: ' ' :: ' ' :: '-' :: ' ' :: rest) tokens 2 outer place false).next? =
      some (inBlock ⟨position.line + 1, 3, 3⟩ (' ' :: rest) (.entry :: tokens) 2 outer none true) := by
  rw [next?_entry (arrive?_entry (by decide) hplace) rfl rfl]
  simp [inBlock, readEntry?, inFlow, openBlock, column, dropPlace?, emit,
    Cursor.advance, Position.after, Char.utf8Size]

theorem next?_directory (line : Nat) (rest : List Char) (tokens : List Token) (outer : List Int)
    (h : ∀ c ∈ directory.toList, isVerbatim c = true) :
    ∃ position place, Passed place position.line ∧
      (inBlock ⟨line, 3, 3⟩ (' ' :: '"' :: (directory.toList ++ '"' :: rest)) tokens 2 outer none
        true).next? =
          some (inBlock position rest (.scalar false directory :: tokens) 2 outer place false) := by
  let text := '"' :: (directory.toList ++ '"' :: rest)
  have hskip : skipToToken false true ⟨line, 3, 3⟩ (' ' :: text) = (⟨⟨line, 4, 4⟩, text⟩, true) := by
    rw [skipToToken_space, skipToToken_stop (by decide) (by decide) (by decide) (by decide)]
    rfl
  have harrive : (inBlock ⟨line, 3, 3⟩ (' ' :: text) tokens 2 outer none true).arrive? =
      some (inBlock ⟨line, 4, 4⟩ text tokens 2 outer none true) :=
    arrive?_inBlock hskip rfl (closeRight_of_le (by simp))
  let behind := (Position.mk line 5 5).afterAll (directory.toList ++ ['"'])
  have hquoted : quoted true ⟨⟨line, 4, 4⟩, text⟩ = some ⟨directory.toList, ⟨behind, rest⟩, false⟩ :=
    quotedFrom_verbatim (Nat.succ_pos _) rfl h
  refine ⟨behind, some ⟨tokens.length, ⟨line, 4, 4⟩, false⟩, ?_, ?_⟩
  · rintro p ⟨⟩
    simp [behind]
  · rw [next?_quote harrive rfl]
    simp [readScalar?, inBlock, savePlace?, dropPlace?, inFlow, column, hquoted, emit]

theorem entryText_cons (directory : String) (directories : List String) (rest : List Char) :
    entryText (directory :: directories) ++ rest = ' ' :: ' ' :: '-' :: ' ' :: '"' ::
      (directory.toList ++ '"' :: '\n' :: (entryText directories ++ rest)) := by
  simp [entryText]

theorem readAll?_entries (h : ∀ directory ∈ directories, ∀ c ∈ directory.toList, isVerbatim c = true)
    (hplace : Passed place position.line) (rest : List Char) (tokens : List Token) (outer : List Int) :
    ∃ position' place', Passed place' position'.line ∧ ∀ fuel,
      readAll? (fuel + 2 * directories.length)
        (inBlock position ('\n' :: (entryText directories ++ rest)) tokens 2 outer place false) =
      readAll? fuel (inBlock position' ('\n' :: rest) ((entryTokens directories).reverse ++ tokens) 2
        outer place' false) := by
  induction directories generalizing position place tokens with
  | nil => exact ⟨position, place, hplace, fun fuel => rfl⟩
  | cons directory directories ih =>
    obtain ⟨hdirectory, hdirectories⟩ := List.forall_mem_cons.mp h
    obtain ⟨position₁, place₁, hplace₁, hscalar⟩ := next?_directory (position.line + 1)
      ('\n' :: (entryText directories ++ rest)) (.entry :: tokens) outer hdirectory
    obtain ⟨position₂, place₂, hplace₂, hrest⟩ :=
      ih hdirectories hplace₁ (.scalar false directory :: .entry :: tokens)
    refine ⟨position₂, place₂, hplace₂, fun fuel => ?_⟩
    have hfuel : fuel + 2 * (directory :: directories).length =
        fuel + 2 * directories.length + 1 + 1 := by
      rw [List.length_cons]
      omega
    rw [hfuel, entryText_cons, readAll?_next (next?_later_entry hplace) rfl,
      readAll?_next hscalar rfl, hrest]
    simp [entryTokens]

theorem next?_sources :
    (inBlock {} ("sources".toList ++ ':' :: '\n' :: rest) [] (-1) [] none true).next? =
      some (inBlock ⟨0, 7, 7⟩ (':' :: '\n' :: rest) [.scalar true "sources"] (-1) []
        (some ⟨0, {}, false⟩) false) := by
  let ready := inBlock {} ("sources".toList ++ ':' :: '\n' :: rest) [] (-1) [] none true
  have hskip : skipToToken false true {} ("sources".toList ++ ':' :: '\n' :: rest) =
      (⟨{}, "sources".toList ++ ':' :: '\n' :: rest⟩, true) :=
    skipToToken_stop (by decide) (by decide) (by decide) (by decide)
  have harrive : ready.arrive? = some ready := arrive?_inBlock hskip rfl rfl
  rw [next?_word harrive rfl rfl rfl rfl rfl rfl]
  exact readScalar?_key (by decide) rfl

theorem next?_sources_colon :
    (inBlock ⟨0, 7, 7⟩ (':' :: '\n' :: rest) [.scalar true "sources"] (-1) []
        (some ⟨0, {}, false⟩) false).next? =
      some (inBlock ⟨0, 8, 8⟩ ('\n' :: rest) [.value, .scalar true "sources", .key, .mappingOpen] 0 [-1]
        none false) := by
  have hskip : skipToToken false false ⟨0, 7, 7⟩ (':' :: '\n' :: rest) =
      (⟨⟨0, 7, 7⟩, ':' :: '\n' :: rest⟩, false) :=
    skipToToken_stop (by decide) (by decide) (by decide) (by decide)
  rw [next?_colon (arrive?_inBlock hskip rfl rfl) rfl rfl]
  rfl

/-- The line below the comment. -/
def outputText : List Char :=
  "output".toList ++ ':' :: ' ' :: ("styleguide.html".toList ++ ['\n'])

/-- What stands below the sources in a draft. -/
def tailText : List Char :=
  '#' :: (" stylesheet: css/main.css".toList ++ '\n' :: outputText)

theorem next?_output (hplace : Passed place position.line) :
    (inBlock position ('\n' :: tailText) tokens 2 [0, -1] place false).next? =
      some (inBlock ⟨position.line + 2, 6, 6⟩ (':' :: ' ' :: ("styleguide.html".toList ++ ['\n']))
        (.scalar true "output" :: .blockClose :: tokens) 0 [-1]
        (some ⟨tokens.length + 1, ⟨position.line + 2, 0, 0⟩, true⟩) false) := by
  have hskip : skipToToken false false position ('\n' :: tailText) =
      (⟨⟨position.line + 2, 0, 0⟩, outputText⟩, true) := by
    rw [tailText, skipToToken_break, skipToToken_comment (by decide)]
    exact skipToToken_stop (by decide) (by decide) (by decide) (by decide)
  have hkeep : keepPlace? ⟨position.line + 2, 0, 0⟩ place = some none :=
    keepPlace?_of_passed hplace (by simp)
  -- the line lies left of the entries, so their sequence is closed
  have harrive : (inBlock position ('\n' :: tailText) tokens 2 [0, -1] place false).arrive? =
      some (inBlock ⟨position.line + 2, 0, 0⟩ outputText (.blockClose :: tokens) 0 [-1] none true) :=
    arrive?_inBlock hskip hkeep rfl
  rw [next?_word harrive rfl rfl rfl rfl rfl rfl]
  exact readScalar?_key (by decide) rfl

theorem next?_output_colon {line : Nat} :
    (inBlock ⟨line, 6, 6⟩ (':' :: ' ' :: rest) (.scalar true "output" :: .blockClose :: tokens) 0
        [-1] (some ⟨tokens.length + 1, ⟨line, 0, 0⟩, true⟩) false).next? =
      some (inBlock ⟨line, 7, 7⟩ (' ' :: rest)
        (.value :: .scalar true "output" :: .key :: .blockClose :: tokens) 0 [-1] none false) := by
  let ready := inBlock ⟨line, 6, 6⟩ (':' :: ' ' :: rest) (.scalar true "output" :: .blockClose :: tokens)
    0 [-1] (some ⟨tokens.length + 1, ⟨line, 0, 0⟩, true⟩) false
  have hskip : skipToToken false false ⟨line, 6, 6⟩ (':' :: ' ' :: rest) =
      (⟨⟨line, 6, 6⟩, ':' :: ' ' :: rest⟩, false) :=
    skipToToken_stop (by decide) (by decide) (by decide) (by decide)
  have hkeep : keepPlace? ⟨line, 6, 6⟩ (some ⟨tokens.length + 1, ⟨line, 0, 0⟩, true⟩) =
      some (some ⟨tokens.length + 1, ⟨line, 0, 0⟩, true⟩) := by
    simp [keepPlace?, KeyPlace.isStale]
  have harrive : ready.arrive? = some ready := arrive?_inBlock hskip hkeep rfl
  have hindex : tokens.length + 1 + 1 - (tokens.length + 1) = 1 := by omega
  rw [next?_colon harrive rfl rfl]
  simp [ready, inBlock, readValue?, Reader.insert, hindex, openBlock, inFlow, emit, Cursor.advance,
    Position.after, Char.utf8Size]

theorem next?_page {line : Nat} :
    (inBlock ⟨line, 7, 7⟩ (' ' :: ("styleguide.html".toList ++ ['\n'])) tokens 0 [-1] none false).next? =
      some (inBlock ⟨line + 1, 0, 0⟩ [] (.scalar true "styleguide.html" :: tokens) 0 [-1] none true) := by
  let page := "styleguide.html".toList ++ ['\n']
  have hskip : skipToToken false false ⟨line, 7, 7⟩ (' ' :: page) = (⟨⟨line, 8, 8⟩, page⟩, false) :=
    skipToToken_space.trans (skipToToken_stop (by decide) (by decide) (by decide) (by decide))
  have harrive : (inBlock ⟨line, 7, 7⟩ (' ' :: page) tokens 0 [-1] none false).arrive? =
      some (inBlock ⟨line, 8, 8⟩ page tokens 0 [-1] none false) :=
    arrive?_inBlock hskip rfl rfl
  rw [next?_word harrive rfl rfl rfl rfl rfl rfl]
  exact readScalar?_last (by decide)

theorem readAll?_page_end {line : Nat} :
    readAll? (fuel + 1) (inBlock ⟨line, 0, 0⟩ [] tokens 0 [-1] none true) =
      some (tokens.reverse ++ [Token.blockClose, .streamEnd]) := by
  have hskip : skipToToken false true ⟨line, 0, 0⟩ [] = (⟨⟨line, 0, 0⟩, []⟩, true) := by
    rw [skipToToken]
  have harrive : (inBlock ⟨line, 0, 0⟩ [] tokens 0 [-1] none true).arrive? =
      some (inBlock ⟨line, 0, 0⟩ [] tokens 0 [-1] none true) :=
    arrive?_inBlock hskip rfl rfl
  rw [readAll?, next?_end harrive rfl]
  simp [readEnd?, closeBlocks, inBlock, inFlow, closeRight, dropPlace?, emit]

/-- The tokens of a draft that names directories. -/
def tokensOf (directories : List String) : List Token :=
  .mappingOpen :: .key :: .scalar true "sources" :: .value :: .sequenceOpen ::
    (entryTokens directories ++ [Token.blockClose, .key, .scalar true "output", .value,
      .scalar true "styleguide.html", .blockClose, .streamEnd])

theorem toList_tail :
    "# stylesheet: css/main.css\noutput: styleguide.html\n".toList = tailText := by
  decide +kernel

theorem toList_text (hnone : directories ≠ []) (hroot : directories ≠ ["."]) :
    (text directories).toList =
      "sources".toList ++ ':' :: '\n' :: (entryText directories ++ tailText) := by
  have hlines : (String.join (directories.map sourceLine)).toList = entryText directories := by
    rw [String.toList_join, List.flatMap_map, entryText]
    refine List.flatMap_congr fun directory _ => ?_
    rw [sourceLine, String.toList_append, String.toList_append]
    rfl
  have hhead : "sources:\n".toList = "sources".toList ++ [':', '\n'] := rfl
  rw [text, sourceLines, if_neg (by simp [hnone, hroot]), String.toList_append, String.toList_append,
    hlines, hhead, toList_tail, List.append_assoc, List.append_assoc]
  rfl

theorem all_isAllowed_text (hnone : directories ≠ []) (hroot : directories ≠ ["."])
    (h : ∀ directory ∈ directories, ∀ c ∈ directory.toList, isVerbatim c = true) :
    (text directories).toList.all isAllowed = true := by
  have hentries : (entryText directories).all isAllowed = true := by
    rw [entryText, List.all_flatMap, List.all_eq_true]
    intro directory hdirectory
    have hname : directory.toList.all isAllowed = true := by
      rw [List.all_eq_true]
      intro c hc
      have hverbatim := h directory hdirectory c hc
      simp only [isVerbatim, Bool.and_eq_true] at hverbatim
      exact hverbatim.1.1.1
    rw [List.all_cons, List.all_cons, List.all_cons, List.all_cons, List.all_cons, List.all_append, hname]
    decide
  have htail : tailText.all isAllowed = true := by decide
  have hsources : "sources".toList.all isAllowed = true := by decide
  rw [toList_text hnone hroot, List.all_append, List.all_cons, List.all_cons, List.all_append, hentries,
    htail, hsources]
  decide

theorem length_entryText (directories : List String) :
    2 * directories.length ≤ (entryText directories).length := by
  induction directories with
  | nil => exact Nat.le_refl _
  | cons directory directories ih =>
    have hcons := congrArg List.length (entryText_cons directory directories [])
    simp only [List.append_nil, List.length_cons, List.length_append] at hcons
    rw [List.length_cons]
    omega

/-- **The tokens of a draft.** -/
theorem ofText?_text (hnone : directories ≠ []) (hroot : directories ≠ ["."])
    (h : ∀ directory ∈ directories, ∀ c ∈ directory.toList, isVerbatim c = true) :
    Token.ofText? (text directories).toList = some (tokensOf directories) := by
  rw [Token.ofText?, if_pos (all_isAllowed_text hnone hroot h), toList_text hnone hroot]
  obtain ⟨directory, more, rfl⟩ := List.exists_cons_of_ne_nil hnone
  obtain ⟨hdirectory, hmore⟩ := List.forall_mem_cons.mp h
  obtain ⟨position₁, place₁, hplace₁, hscalar⟩ := next?_directory 1
    ('\n' :: (entryText more ++ tailText))
    [.entry, .sequenceOpen, .value, .scalar true "sources", .key, .mappingOpen] [0, -1] hdirectory
  obtain ⟨position₂, place₂, hplace₂, hentries⟩ := readAll?_entries hmore hplace₁ tailText
    [.scalar false directory, .entry, .sequenceOpen, .value, .scalar true "sources", .key, .mappingOpen]
    [0, -1]
  have hlong : 8 + 2 * more.length ≤ ("sources".toList ++ ':' :: '\n' ::
      (entryText (directory :: more) ++ tailText)).length + 1 := by
    have hmore := length_entryText more
    have hsources : "sources".toList.length = 7 := by decide
    rw [entryText_cons]
    simp only [List.length_append, List.length_cons]
    omega
  obtain ⟨fuel, hfuel⟩ := Nat.exists_eq_add_of_le hlong
  have hsteps : 8 + 2 * more.length + fuel = fuel + 1 + 1 + 1 + 1 + 2 * more.length + 1 + 1 + 1 + 1 := by
    omega
  rw [hfuel, hsteps, entryText_cons]
  show readAll? _ (inBlock {} _ [] (-1) [] none true) = _
  rw [readAll?_next next?_sources rfl, readAll?_next next?_sources_colon rfl,
    readAll?_next (next?_first_entry (by simp [Passed])) rfl]
  rw [readAll?_next hscalar rfl, hentries, readAll?_next (next?_output hplace₂) rfl,
    readAll?_next next?_output_colon rfl, readAll?_next next?_page rfl, readAll?_page_end]
  simp [tokensOf, entryTokens]

/-! ### Events -/

/-- One event for each directory. -/
def entryEvents {α : Type} (directories : List String) : List (Event α) :=
  directories.map fun directory => .scalar {} false directory

/-- The events of a draft that names directories. -/
def eventsOf {α : Type} (directories : List String) : List (Event α) :=
  .mappingStart {} :: .scalar {} true "sources" :: .sequenceStart {} ::
    (entryEvents directories ++ [Event.sequenceEnd, .scalar {} true "output",
      .scalar {} true "styleguide.html", .mappingEnd])

theorem eventsFrom?_succ {handles : List (String × Octets)} {expectation : Expectation}
    {around : List Expectation} {tokens : List Token} {found : Step}
    (h : step? handles expectation around tokens = some found) :
    eventsFrom? handles (fuel + 1) (expectation :: around) tokens =
      (eventsFrom? handles fuel found.expected found.rest).map fun later =>
        (found.event :: later.1, later.2) := by
  rw [eventsFrom?, h]
  cases hlater : eventsFrom? handles fuel found.expected found.rest <;> simp [hlater]

theorem eventsFrom?_entries (handles : List (String × Octets)) (around : List Expectation)
    (rest : List Token) :
    eventsFrom? handles (fuel + directories.length) (.blockEntry :: around)
        (entryTokens directories ++ rest) =
      (eventsFrom? handles fuel (.blockEntry :: around) rest).map fun later =>
        (entryEvents directories ++ later.1, later.2) := by
  induction directories with
  | nil => simp [entryTokens, entryEvents]
  | cons directory directories ih =>
    have hstep : step? handles .blockEntry around (entryTokens (directory :: directories) ++ rest) =
        some ⟨.scalar {} false directory, .blockEntry :: around, entryTokens directories ++ rest⟩ := rfl
    rw [List.length_cons, ← Nat.add_assoc, eventsFrom?_succ hstep, ih, Option.map_map]
    rfl

theorem ofTokens?_tokensOf (directories : List String) :
    Event.ofTokens? (tokensOf directories) = some (eventsOf directories) := by
  have hmax : maxEvents (tokensOf directories) =
      9 * directories.length + 59 + 1 + 1 + 1 + 1 + directories.length + 1 + 1 := by
    have hlength : (entryTokens directories).length = directories.length * 2 := by
      simp [entryTokens]
    simp only [maxEvents, tokensOf, List.length_append, List.length_cons, List.length_nil, hlength]
    omega
  let closing : List Token :=
    [.blockClose, .key, .scalar true "output", .value, .scalar true "styleguide.html", .blockClose,
      .streamEnd]
  have hsources : step? standardHandles .blockKey []
      (.key :: .scalar true "sources" :: .value :: .sequenceOpen :: (entryTokens directories ++ closing)) =
        some ⟨.scalar {} true "sources", [.blockValue],
          .value :: .sequenceOpen :: (entryTokens directories ++ closing)⟩ := rfl
  have hsequence : step? standardHandles .blockValue []
      (.value :: .sequenceOpen :: (entryTokens directories ++ closing)) =
        some ⟨.sequenceStart {}, [.blockEntry, .blockKey], entryTokens directories ++ closing⟩ := rfl
  have hclosing : ∀ fuel,
      eventsFrom? standardHandles (fuel + 1 + 1 + 1 + 1) [.blockEntry, .blockKey] closing =
      some ([.sequenceEnd, .scalar {} true "output", .scalar {} true "styleguide.html", .mappingEnd],
        [.streamEnd]) := by
    intro fuel
    simp [closing, eventsFrom?, step?, nodeUnless?, node?, properties?]
  have hfirst : firstDocument? (tokensOf directories) = some (eventsOf directories, [.streamEnd]) := by
    have hnode : node? standardHandles true false [] (tokensOf directories) =
        some ⟨.mappingStart {}, [.blockKey], .key :: .scalar true "sources" :: .value :: .sequenceOpen ::
          (entryTokens directories ++ closing)⟩ := by
      simp [tokensOf, closing, node?, properties?]
    show nodeEvents? standardHandles (tokensOf directories) = _
    rw [nodeEvents?, hmax, hnode]
    simp only [Option.bind_eq_bind, Option.bind_some]
    rw [eventsFrom?_succ hsources, eventsFrom?_succ hsequence, eventsFrom?_entries, hclosing]
    rfl
  rw [Event.ofTokens?, hfirst]
  rfl

/-! ### The manifest -/

/-- An event that is no alias and has no anchor. -/
def isAnonymous : Event String → Bool
  | .alias _ => false
  | .scalar properties _ _ => properties.anchor.isNone
  | .sequenceStart properties => properties.anchor.isNone
  | .mappingStart properties => properties.anchor.isNone
  | _ => true

/-- Events without aliases and anchors are linked as they are. -/
theorem linkFrom?_of_anonymous {events : List (Event String)} (names : List (String × Nat))
    (index : Nat) (targets : List (Nat × Nat)) (h : ∀ event ∈ events, isAnonymous event = true) :
    linkFrom? names index targets events =
      some ⟨events.map fun event => event.withoutAlias.1, targets⟩ := by
  induction events generalizing index with
  | nil => rfl
  | cons event events ih =>
    obtain ⟨hevent, hevents⟩ := List.forall_mem_cons.mp h
    have hlater := ih (index + 1) hevents
    cases event with
    | «alias» name => cases hevent
    | scalar properties | sequenceStart properties | mappingStart properties =>
      have hanchor : properties.anchor = none := Option.isNone_iff_eq_none.mp hevent
      simp [linkFrom?, Event.withoutAlias, hanchor, hlater]
    | sequenceEnd | mappingEnd => simp [linkFrom?, Event.withoutAlias, hlater]

theorem linkFrom?_eventsOf (directories : List String) :
    linkFrom? [] 0 [] (eventsOf directories) = some ⟨eventsOf directories, []⟩ := by
  have hanonymous : ∀ event ∈ (eventsOf directories : List (Event String)), isAnonymous event = true := by
    have hentries : ∀ event ∈ entryEvents directories, isAnonymous event = true := by
      intro event hevent
      obtain ⟨directory, _, rfl⟩ := List.mem_map.mp hevent
      rfl
    simp only [eventsOf, List.forall_mem_cons, List.forall_mem_append]
    exact ⟨rfl, rfl, rfl, hentries, by decide⟩
  rw [linkFrom?_of_anonymous _ _ _ hanonymous]
  simp [eventsOf, entryEvents, Event.withoutAlias]

theorem nodesFrom_entries (opened rest : List (Event Nat)) (depth : Nat) :
    nodesFrom opened (depth + 1) (entryEvents directories ++ rest) =
      nodesFrom ((entryEvents directories).reverse ++ opened) (depth + 1) rest := by
  induction directories generalizing opened with
  | nil => rfl
  | cons directory directories ih =>
    have hcons : entryEvents (directory :: directories) =
        (Event.scalar {} false directory :: entryEvents directories : List (Event Nat)) := rfl
    rw [hcons, List.cons_append, nodesFrom]
    simp only [Event.depthAfter]
    rw [ih]
    simp

theorem items?_entries (document : Document) :
    document.items? (entryEvents directories ++ [Event.sequenceEnd]) = some directories := by
  induction directories with
  | nil => rfl
  | cons directory directories ih =>
    have hcons : entryEvents (directory :: directories) =
        (Event.scalar {} false directory :: entryEvents directories : List (Event Nat)) := rfl
    simp [hcons, Document.items?, Document.text?, Document.resolve, ih]

theorem entries?_eventsOf (directories : List String) (targets : List (Nat × Nat)) :
    Document.entries? ⟨eventsOf directories, targets⟩ =
      some [("sources", .sequenceStart {} :: (entryEvents directories ++ [Event.sequenceEnd])),
        ("output", [.scalar {} true "styleguide.html"])] := by
  let inner : List (Event Nat) := .scalar {} true "sources" :: .sequenceStart {} ::
    (entryEvents directories ++ [Event.sequenceEnd, .scalar {} true "output",
      .scalar {} true "styleguide.html"])
  have hevents : eventsOf directories = .mappingStart {} :: (inner ++ [Event.mappingEnd]) := by
    simp [eventsOf, inner]
  have hnodes : nodesFrom [] 0 inner =
      [[.scalar {} true "sources"], .sequenceStart {} :: (entryEvents directories ++ [Event.sequenceEnd]),
        [.scalar {} true "output"], [.scalar {} true "styleguide.html"]] := by
    show nodesFrom [] 0 (_ :: _ :: _) = _
    rw [nodesFrom, nodesFrom]
    simp only [Event.depthAfter]
    rw [nodesFrom_entries]
    simp [nodesFrom, Event.depthAfter]
  rw [Document.entries?, hevents]
  simp only
  rw [List.dropLast_concat, hnodes]
  rfl

theorem ofDocument?_eventsOf (directories : List String) (targets : List (Nat × Nat)) :
    Manifest.ofDocument? ⟨eventsOf directories, targets⟩ = some { sources := directories } := by
  rw [Manifest.ofDocument?, entries?_eventsOf]
  simp [Manifest.settings, Manifest.set?, Document.list?, Document.text?, Document.resolve,
    items?_entries, Manifest.default]

theorem parse_of_ofText? {written : String} {read : Option Manifest}
    (htrim : (Text.trim written.toList).isEmpty = false)
    (hread : (Document.ofText? written.toList).bind Manifest.ofDocument? = read) :
    Manifest.parse written = read.elim (.error .manifest) .ok := by
  rw [Manifest.parse, htrim, hread]
  cases read <;> rfl

/-- **A draft reads back**, whatever its directories are, if their names hold only characters that
stand for themselves between double quotes. -/
theorem parse_text (h : ∀ directory ∈ directories, ∀ c ∈ directory.toList, isVerbatim c = true) :
    Manifest.parse (text directories) = .ok (manifest directories) := by
  by_cases hroot : directories = [] ∨ directories = ["."]
  · have hdefault : (Document.ofText? tailText).bind Manifest.ofDocument? = some {} := by decide +kernel
    have hlines : sourceLines directories = "" ∧ manifest directories = {} := by
      rcases hroot with rfl | rfl
      · exact ⟨rfl, rfl⟩
      · exact ⟨rfl, rfl⟩
    have htrim : (Text.trim tailText).isEmpty = false := by decide +kernel
    rw [text, hlines.1, String.empty_append, hlines.2]
    exact parse_of_ofText? (toList_tail ▸ htrim) (toList_tail ▸ hdefault)
  · obtain ⟨hnone, hdot⟩ := not_or.mp hroot
    have htrim : (Text.trim (text directories).toList).isEmpty = false := by
      have hhead : (text directories).toList.head? = some 's' := by
        rw [toList_text hnone hdot]
        rfl
      have hkept := Text.head?_trim hhead (by decide)
      cases htrim : Text.trim (text directories).toList with
      | nil => rw [htrim] at hkept; cases hkept
      | cons c cs => rfl
    have hdocument : Document.ofText? (text directories).toList = some ⟨eventsOf directories, []⟩ := by
      rw [Document.ofText?, ofText?_text hnone hdot h]
      simp only [Option.bind_eq_bind, Option.bind_some]
      rw [ofTokens?_tokensOf, Option.bind_some, linkFrom?_eventsOf]
    have hread : (Document.ofText? (text directories).toList).bind Manifest.ofDocument? =
        some { sources := directories } := by
      rw [hdocument, Option.bind_some, ofDocument?_eventsOf]
    rw [parse_of_ofText? htrim hread]
    simp [manifest, hnone, hdot]

/-- **The draft of a project reads back as what was meant.**  If the names of the directories hold only
characters that stand for themselves between double quotes, its manifest has these directories for its
sources, in ascending order and each once, and no source if there is only the root; every other setting
is the default. -/
theorem text_reads_back (root : Path) (files : List Path)
    (h : ∀ directory ∈ Draft.directories root files, ∀ c ∈ directory.toList, isVerbatim c = true) :
    Manifest.parse (text (Draft.directories root files)) = .ok (manifest (Draft.directories root files)) ∧
      (Draft.directories root files).Pairwise (· < ·) :=
  ⟨parse_text h, pairwise_directories root files⟩

/-- Two directories, one of them with a blank and a sign in its name. -/
theorem text_reads_back_blank :
    let files : List Path := [⟨"././b.scss"⟩, ⟨"././wide # screens/a.scss"⟩]
    (∀ directory ∈ Draft.directories ⟨"."⟩ files, ∀ c ∈ directory.toList, isVerbatim c = true) ∧
      Manifest.parse (text (Draft.directories ⟨"."⟩ files)) =
        .ok { sources := [".", "wide # screens/"] } := by
  intro files
  have hnames : ((files.filterMap Path.parent?).map (directoryName ⟨"."⟩)).eraseDups =
      [".", "wide # screens/"] := by
    decide +kernel
  have hdirectories : Draft.directories ⟨"."⟩ files = [".", "wide # screens/"] := by
    rw [Draft.directories, hnames]
    exact List.mergeSort_of_pairwise (List.pairwise_pair.mpr (by decide))
  have hverbatim : ∀ directory ∈ Draft.directories ⟨"."⟩ files, ∀ c ∈ directory.toList,
      isVerbatim c = true := by
    rw [hdirectories, List.forall_mem_cons, List.forall_mem_singleton]
    exact ⟨List.all_eq_true.mp (by decide), List.all_eq_true.mp (by decide)⟩
  refine ⟨hverbatim, (text_reads_back ⟨"."⟩ files hverbatim).1.trans ?_⟩
  rw [hdirectories]
  rfl

/-- **Quotes are not escaped.**  A quote in a name makes the draft unreadable, or it ends the name
unnoticed; a backslash takes the character behind it for an escape. -/
theorem text_misread :
    (Draft.directories ⟨"."⟩ [⟨"././a\"b/x.scss"⟩] = ["a\"b/"] ∧
      Manifest.parse (text ["a\"b/"]) = .error .manifest) ∧
    (Draft.directories ⟨"."⟩ [⟨"././a\" #/x.scss"⟩] = ["a\" #/"] ∧
      Manifest.parse (text ["a\" #/"]) = .ok { sources := ["a"] }) ∧
    Draft.directories ⟨"."⟩ [⟨"././a\\b/x.scss"⟩] = ["a\\b/"] ∧
      Manifest.parse (text ["a\\b/"]) = .ok { sources := ["a\x08/"] } := by
  refine ⟨⟨by decide +kernel, ?_⟩, ⟨by decide +kernel, ?_⟩, by decide +kernel, ?_⟩
  · exact parse_of_ofText? (by decide +kernel) (by decide +kernel : _ = none)
  · exact parse_of_ofText? (by decide +kernel)
      (by decide +kernel : _ = some ({ sources := ["a"] } : Manifest))
  · exact parse_of_ofText? (by decide +kernel)
      (by decide +kernel : _ = some ({ sources := ["a\x08/"] } : Manifest))

end LivingGuide.Draft
