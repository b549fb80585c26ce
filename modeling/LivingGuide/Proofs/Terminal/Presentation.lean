import LivingGuide.Command.Run
import LivingGuide.Proofs.BlockOutcome
import LivingGuide.Proofs.FileOrder
import LivingGuide.Proofs.FileSystem.Change
import LivingGuide.Proofs.Terminal.Origin

/-!
# How messages are shown decides nothing

Two things about an invocation only concern its messages: whether it is quiet, and whether they go to a
terminal.  What else is seen of it is the same in all four cases, and what a terminal shows differs
from what is shown elsewhere by its paint alone:

    withoutPaint (run fs true ⟨quiet, command⟩).said = (run fs false ⟨quiet, command⟩).said

The second holds as long as no paint comes in from outside, for paint that stands in a name or in a
comment would be taken off as well.  Messages show paths, counts, and what stylesheets document, and
each of these is followed back to where it was read: the texts of a block are cut out of the lines of a
file (`Block.unpainted_ofLines`), the findings about a guide name its blocks (`Guide.unpainted_check`),
and the paths are those of `Terminal/Origin.lean`.

One text does not stand anywhere as it is shown.  A manifest says where a document is written, and an
escape of a quoted text can name any character without holding it, so this one has to be asked for
apart (`BuildRequest.DeclaresUnpainted`).

* `Command.Unpainted`: no argument of a command holds paint.
* `Command.unpainted_run`: such a command says nothing with paint in it, in a tree without paint.
* `Invocation.run_presentation`: **how messages are shown decides nothing.**
* `Invocation.paint_of_escape`: the output of a manifest can bring in paint that stands nowhere.
-/

namespace LivingGuide

open Text

/-! ### What stylesheets document -/

/-- What findings show of a block holds no paint. -/
structure Block.Unpainted (b : Block) : Prop where
  name : Text.Unpainted b.name
  sectionText : Text.Unpainted b.sectionText
  selectors : ∀ m ∈ b.modifiers, Text.Unpainted m.selector

theorem Modifier.unpainted_of_mem_ofLines {lines : List String} {m : Modifier}
    (hlines : ∀ l ∈ lines, Text.Unpainted l) (hm : m ∈ ofLines lines) :
    Text.Unpainted m.selector := by
  obtain ⟨line, hline, hparse⟩ := List.mem_filterMap.mp hm
  cases hread : parse line with
  | error e => rw [hread] at hparse; cases hparse
  | ok m' =>
    rw [hread] at hparse
    cases hparse
    exact (hlines line hline).of_subset (selector_subset hread)

namespace Block

variable {b draft : Block} {gs : List (List String)}

theorem mem_of_lastWith {p : List String → Bool} {group : List String}
    (h : lastWith p gs = some group) : group ∈ gs :=
  List.mem_of_mem_filter (List.mem_of_getLast? h)

theorem unpainted_outcome (hname : Text.Unpainted draft.name) (hdraft : draft.modifiers = [])
    (hgs : ∀ group ∈ gs, ∀ l ∈ group, Text.Unpainted l) (h : draft.outcome gs = .ok b) :
    b.Unpainted := by
  obtain ⟨last, word, hlast, hword, rfl⟩ := outcome_eq_ok h
  have hline : Text.Unpainted (last.headD "") := by
    have hgroup := hgs last (List.mem_of_getLast? hlast)
    cases last with
    | nil => decide
    | cons first later => exact hgroup first List.mem_cons_self
  refine ⟨hname, ?_, ?_⟩
  · obtain ⟨cs, hcs, rfl⟩ := List.mem_map.mp (List.mem_of_getElem? hword)
    refine hline.of_subset ?_
    rw [String.toList_ofList]
    exact subset_of_mem_words hcs
  · intro m hm
    cases hgroup : lastWith (opensWith modifierSigns) gs.dropLast with
    | none =>
      simp only [filled, hgroup, Option.elim_none, hdraft] at hm
      cases hm
    | some group =>
      simp only [filled, hgroup, Option.elim_some] at hm
      have hmem : group ∈ gs := List.dropLast_subset _ (mem_of_lastWith hgroup)
      exact Modifier.unpainted_of_mem_ofLines (hgs group hmem) hm

/-- **Lines without paint describe a block without paint.** -/
theorem unpainted_ofLines {lines : List String} (hlines : ∀ l ∈ lines, Text.Unpainted l)
    (h : ofLines lines = .ok b) : b.Unpainted := by
  have hgroups : ∀ group ∈ groups lines, ∀ l ∈ group, Text.Unpainted l := fun group hgroup l hl =>
    hlines l ((ne_nil_of_mem_groups hgroup).2 l hl).1
  rw [ofLines_eq] at h
  obtain ⟨name, rest, hcut, houtcome⟩ := specified_eq_ok h
  rw [hcut] at hgroups
  obtain ⟨hname, hrest⟩ := List.forall_mem_cons.mp hgroups
  have hnamed : Text.Unpainted (named name).name := hname name List.mem_cons_self
  exact unpainted_outcome hnamed rfl hrest houtcome

end Block

theorem Comment.unpainted_content {text line content : String} (htext : Text.Unpainted text)
    (hline : line ∈ linesOf text) (h : content? line = some content) : Text.Unpainted content := by
  obtain ⟨cs, hcs, rfl⟩ := List.mem_map.mp hline
  have hchars := subset_of_content? h
  rw [String.toList_ofList] at hchars
  exact htext.of_subset (List.Subset.trans hchars (subset_of_mem_lines hcs))

namespace Source

variable {text : String} {source : Source}

theorem unpainted_of_mem_blocks (htext : Text.Unpainted text) (h : parse text = .ok source)
    {b : Block} (hb : b ∈ source.blocks) : b.Unpainted := by
  rw [parse] at h
  split at h
  · next blocks hblocks =>
    cases h
    obtain ⟨run, hrun, hread⟩ := exists_left_of_forall₂ (mapM_eq_ok_iff.mp hblocks) b hb
    refine Block.unpainted_ofLines (fun l hl => ?_) hread
    obtain ⟨line, hline, hcontent⟩ :=
      Comment.exists_line_of_mem_stretches (List.mem_of_mem_filter hrun) l hl
    exact Comment.unpainted_content htext hline hcontent
  · cases h

theorem unpainted_of_unterminated (htext : Text.Unpainted text) (h : parse text = .ok source)
    {run : List String} (hrun : source.unterminated = some run) : ∀ l ∈ run, Text.Unpainted l := by
  rw [parse] at h
  split at h
  · cases h
    intro l hl
    simp only [Comment.unterminated?] at hrun
    split at hrun
    · cases hrun
      obtain ⟨line, hline, hcontent⟩ := Comment.exists_line_of_mem_opened hl
      exact Comment.unpainted_content htext hline hcontent
    · cases hrun
  · cases h

end Source

/-! ### What checks find -/

theorem SectionNumber.unpainted_text (number : SectionNumber) : Text.Unpainted number.text := by
  refine unpainted_intercalate (by decide) fun s hs => ?_
  obtain ⟨n, _, rfl⟩ := List.mem_map.mp hs
  exact unpainted_repr n

theorem Block.Unpainted.finding {b : Block} (hb : b.Unpainted) {severity : Severity}
    {code message : String} {help : Option String} (hcode : Text.Unpainted code)
    (hmessage : Text.Unpainted message) (hhelp : ∀ s ∈ help, Text.Unpainted s) :
    Finding.Unpainted ⟨severity, code, message, some b.sectionText, help⟩ :=
  ⟨hcode, hmessage, fun _ hs => Option.some.inj hs ▸ hb.sectionText, hhelp⟩

/-- A claimed section is reported with the names of two blocks: the names that are kept for later
hold no paint either. -/
theorem unpainted_of_mem_reusedSections {seen : List (SectionNumber × String)}
    {blocks : List Block} (hseen : ∀ entry ∈ seen, Text.Unpainted entry.2)
    (hblocks : ∀ b ∈ blocks, b.Unpainted) {f : Finding} (hf : f ∈ reusedSections seen blocks) :
    f.Unpainted := by
  induction blocks generalizing seen with
  | nil => cases hf
  | cons b blocks ih =>
    obtain ⟨hb, hblocks⟩ := List.forall_mem_cons.mp hblocks
    rw [reusedSections] at hf
    split at hf
    · exact ih hseen hblocks hf
    · next number _ =>
      split at hf
      · next first hfirst =>
        rcases List.mem_cons.mp hf with rfl | hf
        · obtain ⟨before, after, hmem, _⟩ := List.lookup_eq_some_iff.mp hfirst
          have hname : Text.Unpainted first :=
            hseen (number, first) (hmem ▸ List.mem_append_right _ List.mem_cons_self)
          refine hb.finding (unpainted_ofList (by decide)) ?_ ?_
          · simp only [unpainted_append]
            exact ⟨⟨⟨⟨⟨⟨by decide, hb.name⟩, unpainted_ofList (by decide)⟩, number.unpainted_text⟩,
              unpainted_ofList (by decide)⟩, hname⟩, by decide⟩
          · rintro help ⟨⟩
            exact unpainted_ofList (by decide)
        · exact ih hseen hblocks hf
      · exact ih (List.forall_mem_cons.mpr ⟨hb.name, hseen⟩) hblocks hf

theorem unpainted_of_unusedModifiers? {b : Block} (hb : b.Unpainted) {f : Finding}
    (hf : unusedModifiers? b = some f) : f.Unpainted := by
  unfold unusedModifiers? at hf
  split_ifs at hf
  · cases hf
    refine hb.finding (unpainted_ofList (by decide)) ?_ ?_
    · simp only [unpainted_append]
      exact ⟨⟨by decide, hb.name⟩, unpainted_ofList (by decide)⟩
    · rintro help ⟨⟩
      exact unpainted_ofList (by decide)
  · cases hf
    refine hb.finding (unpainted_ofList (by decide)) ?_ ?_
    · simp only [unpainted_append]
      exact ⟨⟨⟨by decide, hb.name⟩, unpainted_ofList (by decide)⟩, by decide⟩
    · rintro help ⟨⟩
      exact unpainted_ofList (by decide)

theorem unpainted_of_mem_repeatedSelectors {b : Block} (hb : b.Unpainted) {seen : List String}
    {modifiers : List Modifier} (hmodifiers : ∀ m ∈ modifiers, Text.Unpainted m.selector)
    {f : Finding} (hf : f ∈ repeatedSelectors b seen modifiers) : f.Unpainted := by
  induction modifiers generalizing seen with
  | nil => cases hf
  | cons m modifiers ih =>
    obtain ⟨hm, hmodifiers⟩ := List.forall_mem_cons.mp hmodifiers
    rw [repeatedSelectors] at hf
    split at hf
    · rcases List.mem_cons.mp hf with rfl | hf
      · refine hb.finding (unpainted_ofList (by decide)) ?_
          (fun _ h => absurd h (Option.not_mem_none _))
        simp only [unpainted_append]
        exact ⟨⟨⟨⟨by decide, hb.name⟩, unpainted_ofList (by decide)⟩, hm⟩,
          unpainted_ofList (by decide)⟩
      · exact ih hmodifiers hf
    · exact ih hmodifiers hf

/-- **Checks find nothing with paint in it** in blocks without paint. -/
theorem Guide.unpainted_check {guide : Guide} (hblocks : ∀ b ∈ guide.blocks, b.Unpainted)
    {f : Finding} (hf : f ∈ guide.check.findings) : f.Unpainted := by
  rcases List.mem_append.mp hf with hf | hf
  · rcases List.mem_append.mp hf with hf | hf
    · exact unpainted_of_mem_reusedSections (List.forall_mem_nil _) hblocks hf
    · obtain ⟨b, hb, hfound⟩ := List.mem_filterMap.mp hf
      exact unpainted_of_unusedModifiers? (hblocks b hb) hfound
  · obtain ⟨b, hb, hfound⟩ := List.mem_flatMap.mp hf
    exact unpainted_of_mem_repeatedSelectors (hblocks b hb) (hblocks b hb).selectors hfound

/-! ### What is read -/

namespace Reading

/-- A reading whose findings and paths hold no paint. -/
structure Unpainted (reading : Reading) : Prop where
  findings : ∀ f ∈ reading.findings.findings, f.Unpainted
  paths : ∀ file ∈ reading.counts, file.1.Unpainted

variable {fs : FileSystem} {paths : List Path} {reading : Reading}

theorem unpainted_cutOff {path : Path} {run : List String} (hpath : path.Unpainted)
    (hrun : ∀ l ∈ run, Text.Unpainted l) : (cutOff path run).Unpainted := by
  have hfirst : Text.Unpainted (run.head?.getD "") := by
    cases run with
    | nil => decide
    | cons first later => exact hrun first List.mem_cons_self
  have hmessage : Text.Unpainted (path.text ++ ": block '" ++ run.head?.getD ""
      ++ "' at the end of the file was skipped") := by
    simp only [unpainted_append]
    exact ⟨⟨⟨hpath, by decide⟩, hfirst⟩, unpainted_ofList (by decide)⟩
  refine ⟨unpainted_ofList (by decide), hmessage, fun _ h => absurd h (Option.not_mem_none _), ?_⟩
  rintro help ⟨⟩
  exact unpainted_ofList (by decide)

/-- **What is read from files without paint.** -/
theorem unpainted_of_ofFiles (hfs : fs.root.Unpainted) (hpaths : ∀ p ∈ paths, p.Unpainted)
    (h : ofFiles fs paths = .ok reading) : reading.Unpainted := by
  obtain ⟨sources, hsources, hguide, hcounts, hfindings⟩ := ofFiles_eq_ok_iff.mp h
  have hblocks : ∀ b ∈ reading.guide.blocks, b.Unpainted := by
    intro b hb
    obtain ⟨source, hsource, hb⟩ := List.mem_flatMap.mp (hguide.perm.mem_iff.mp hb)
    obtain ⟨path, _, text, htext, hparse⟩ := exists_left_of_forall₂ hsources source hsource
    exact Source.unpainted_of_mem_blocks (FileSystem.unpainted_of_holdsText hfs htext) hparse hb
  refine ⟨fun f hf => ?_, fun file hfile => ?_⟩
  · rcases List.mem_append.mp hf with hf | hf
    · rw [hfindings] at hf
      obtain ⟨⟨path, source⟩, hfile, hcut⟩ := List.mem_filterMap.mp hf
      obtain ⟨run, hrun, rfl⟩ := Option.map_eq_some_iff.mp hcut
      obtain ⟨text, htext, hparse⟩ := (List.forall₂_iff_zip.mp hsources).2 hfile
      exact unpainted_cutOff (hpaths path (List.of_mem_zip hfile).1)
        (Source.unpainted_of_unterminated (FileSystem.unpainted_of_holdsText hfs htext) hparse hrun)
    · exact Guide.unpainted_check hblocks hf
  · rw [hcounts] at hfile
    exact hpaths file.1 (List.of_mem_zip hfile).1

theorem Unpainted.messages (h : reading.Unpainted) :
    ∀ message ∈ reading.findings.messages, message.Unpainted := by
  intro message hmessage
  obtain ⟨f, hf, rfl⟩ := List.mem_map.mp hmessage
  exact h.findings f hf

end Reading

/-! ### What commands say -/

/-- A command says nothing with paint in it. -/
def Outcome.Unpainted (outcome : Outcome) : Prop :=
  ∀ message ∈ outcome.messages, message.Unpainted

theorem unpainted_countedBlocks (n : Nat) : Text.Unpainted (countedBlocks n) :=
  unpainted_counted n (by decide) (by decide)

theorem unpainted_countedFiles (n : Nat) : Text.Unpainted (countedFiles n) :=
  unpainted_counted n (by decide) (by decide)

theorem unpainted_countedWarnings (n : Nat) : Text.Unpainted (countedWarnings n) :=
  unpainted_counted n (by decide) (by decide)

variable {fs : FileSystem}

namespace BuildRequest

theorem unpainted_pair {path count : String} (hpath : Text.Unpainted path)
    (hcount : Text.Unpainted count) :
    ∀ span ∈ [Span.plain (path ++ " "), Span.dim ("(" ++ count ++ ")")],
      Text.Unpainted span.text := by
  refine List.forall_mem_cons.mpr ⟨?_, List.forall_mem_singleton.mpr ?_⟩
  · exact unpainted_append.mpr ⟨hpath, by decide⟩
  · simp only [Span.text, unpainted_append]
    exact ⟨⟨by decide, hcount⟩, by decide⟩

theorem unpainted_scanMessages (fs : FileSystem) {project : Project} (h : project.Unpainted) :
    ∀ message ∈ scanMessages fs project, message.Unpainted := by
  have hroot : Text.Unpainted (fs.shown project.root) := h.root.shownFrom _
  have hcount := unpainted_countedFiles project.inventory.files.length
  refine List.forall_mem_cons.mpr ⟨?_, fun message hmessage => ?_⟩
  · exact ⟨by decide, unpainted_pair hroot hcount⟩
  · split at hmessage
    · obtain rfl := List.mem_singleton.mp hmessage
      exact ⟨by decide, List.forall_mem_singleton.mpr (unpainted_ofList (by decide))⟩
    · cases hmessage

theorem unpainted_readMessages (fs : FileSystem) (request : BuildRequest) {reading : Reading}
    (h : reading.Unpainted) : ∀ message ∈ readMessages fs request reading, message.Unpainted := by
  have hcount := unpainted_countedBlocks
  intro message hmessage
  rcases List.mem_append.mp hmessage with hmessage | hmessage
  · rcases List.mem_append.mp hmessage with hmessage | hmessage
    · obtain ⟨file, hfile, rfl⟩ := List.mem_map.mp hmessage
      have hpath : Text.Unpainted (fs.shown file.1) := (h.paths file hfile).shownFrom _
      exact ⟨by decide, unpainted_pair hpath (hcount file.2)⟩
    · exact h.messages message hmessage
  · obtain rfl := List.mem_singleton.mp hmessage
    have hformat : Text.Unpainted request.format.name := by cases request.format <;> decide
    refine ⟨by decide, List.forall_mem_singleton.mpr ?_⟩
    simp only [Span.text, unpainted_append]
    exact ⟨⟨hcount _, by decide⟩, hformat⟩

theorem unpainted_deliver {request : BuildRequest} {project : Project} {reading : Reading}
    {messages : List Message} {text : String} (hmessages : ∀ m ∈ messages, m.Unpainted)
    (houtput : request.printed = false → (request.outputPath project).Unpainted) :
    (deliver fs request project reading messages text).Unpainted := by
  rw [deliver]
  split
  · exact hmessages
  · next hwritten =>
    have hpath := houtput (Bool.not_eq_true _ ▸ hwritten)
    dsimp only
    split
    · exact hmessages
    · have hcount : Text.Unpainted (countedBlocks reading.guide.blocks.length ++ " to ") :=
        unpainted_append.mpr ⟨unpainted_countedBlocks _, by decide⟩
      have hwrote : Message.Unpainted (writtenMessage fs reading (request.outputPath project)) :=
        ⟨by decide, List.forall_mem_cons.mpr
          ⟨hcount, List.forall_mem_singleton.mpr (hpath.shownFrom fs.workingPath)⟩⟩
      exact List.forall_mem_append.mpr ⟨hmessages, List.forall_mem_singleton.mpr hwrote⟩

/-- No argument of a build holds paint. -/
structure Unpainted (request : BuildRequest) : Prop where
  paths : ∀ p ∈ request.paths, p.Unpainted
  stylesheet : ∀ s ∈ request.stylesheet, Text.Unpainted s
  output : ∀ p ∈ request.output, p.Unpainted
  title : ∀ s ∈ request.title, Text.Unpainted s

/-- **The output that a manifest declares holds no paint**, if a build writes there. -/
def DeclaresUnpainted (fs : FileSystem) (request : BuildRequest) : Prop :=
  ∀ project declared, Project.find fs request.paths = .ok project →
    project.declared = some declared → request.output = none → request.printed = false →
      declared.output.Unpainted

theorem unpainted_outputPath {request : BuildRequest} {project : Project}
    (hrequest : request.Unpainted) (hproject : project.Unpainted)
    (hdeclared : ∀ declared, project.declared = some declared → request.output = none →
      declared.output.Unpainted) : (request.outputPath project).Unpainted := by
  have hending : ∀ {path : Path}, path.Unpainted → (path.withExtension "json").Unpainted :=
    fun hpath => hpath.withExtension (by decide)
  unfold outputPath
  cases houtput : request.output with
  | some path => exact hrequest.output path houtput
  | none =>
    cases hmanifest : project.declared with
    | some declared =>
      have hpath := hproject.root.join (hdeclared declared hmanifest houtput)
      cases request.format with
      | html => exact hpath
      | json => exact hending hpath
    | none =>
      have hpath : project.manifest.output.Unpainted := by
        rw [Project.manifest, hmanifest]
        exact (by decide : Path.Unpainted ⟨"styleguide.html"⟩)
      cases request.format with
      | html => exact hpath
      | json => exact hending hpath

/-- A build says the path it writes to only once it has written there. -/
theorem unpainted_run (hfs : fs.root.Unpainted) {request : BuildRequest}
    (hrequest : request.Unpainted) (hdeclares : request.DeclaresUnpainted fs) :
    (request.run fs).Unpainted := by
  rw [run]
  split
  · exact List.forall_mem_nil _
  · next project hproject =>
    have hunpainted := Project.unpainted_of_find hfs hrequest.paths hproject
    have hscanned := unpainted_scanMessages fs hunpainted
    dsimp only
    split
    · exact hscanned
    · next reading hreading =>
      have hread := unpainted_readMessages fs request
        (Reading.unpainted_of_ofFiles hfs hunpainted.files hreading)
      have hsaid := List.forall_mem_append.mpr ⟨hscanned, hread⟩
      split
      · exact hsaid
      · refine unpainted_deliver hsaid fun hwritten => ?_
        refine unpainted_outputPath hrequest hunpainted fun declared hdeclared hnone => ?_
        exact hdeclares project declared hproject hdeclared hnone hwritten

/-- What a build says that writes its document. -/
theorem messages_run {request : BuildRequest} {project : Project} {reading : Reading}
    {text : String} {files : FileSystem} (hproject : Project.find fs request.paths = .ok project)
    (hreading : Reading.ofFiles fs project.inventory.files = .ok reading)
    (hdocument : request.document project.manifest reading.guide.blocks = .ok text)
    (hprinted : request.printed = false)
    (hwritten : fs.writeDocument (request.outputPath project) text = (files, .ok ())) :
    (request.run fs).messages = scanMessages fs project ++ readMessages fs request reading
      ++ [writtenMessage fs reading (request.outputPath project)] := by
  simp only [run, hproject, hreading, hdocument, deliver, hprinted, Bool.false_eq_true, if_false,
    hwritten]

end BuildRequest

namespace Survey

theorem unpainted_list (paths : List Path) : (list fs paths).Unpainted := by
  rw [list]
  split
  · exact List.forall_mem_nil _
  · split
    · exact List.forall_mem_nil _
    · refine List.forall_mem_singleton.mpr ⟨by decide, List.forall_mem_singleton.mpr ?_⟩
      simp only [Span.text, unpainted_append]
      exact ⟨⟨unpainted_countedBlocks _, by decide⟩, unpainted_countedFiles _⟩

theorem unpainted_summary (blocks : Nat) (report : Report) :
    Text.Unpainted (summary blocks report) := by
  rw [summary, unpainted_append]
  refine ⟨unpainted_countedBlocks blocks, ?_⟩
  split
  · simp only [unpainted_append]
    exact ⟨⟨by decide, unpainted_countedWarnings _⟩, by decide⟩
  · decide

theorem unpainted_validate (hfs : fs.root.Unpainted) {paths : List Path}
    (hpaths : ∀ p ∈ paths, p.Unpainted) : (validate fs paths).Unpainted := by
  rw [validate]
  split
  · exact List.forall_mem_nil _
  · next project hproject =>
    have hunpainted := Project.unpainted_of_find hfs hpaths hproject
    have hchecking : ∀ message ∈ [Message.status "Checking"
        [.plain (countedFiles project.inventory.files.length)]], message.Unpainted :=
      List.forall_mem_singleton.mpr
        ⟨by decide, List.forall_mem_singleton.mpr (unpainted_countedFiles _)⟩
    dsimp only
    split
    · exact hchecking
    · next reading hreading =>
      have hread := Reading.unpainted_of_ofFiles hfs hunpainted.files hreading
      have hsaid := List.forall_mem_append.mpr ⟨hchecking, hread.messages⟩
      split
      · exact hsaid
      · exact List.forall_mem_append.mpr ⟨hsaid, List.forall_mem_singleton.mpr
          ⟨by decide, List.forall_mem_singleton.mpr (unpainted_summary _ _)⟩⟩

end Survey

namespace Draft

theorem unpainted_directoryName {root directory : Path} (h : directory.Unpainted) :
    Text.Unpainted (directoryName root directory) := by
  have hpath : ((directory.relativeTo? root).getD directory).Unpainted := by
    cases hrelative : directory.relativeTo? root with
    | none => exact h
    | some q => exact h.relativeTo hrelative
  rw [directoryName]
  split
  · decide
  · exact unpainted_append.mpr ⟨hpath, by decide⟩

theorem unpainted_directories {root : Path} {files : List Path} (h : ∀ p ∈ files, p.Unpainted) :
    ∀ name ∈ directories root files, Text.Unpainted name := by
  intro name hname
  rw [directories, List.mem_mergeSort, List.mem_eraseDups] at hname
  obtain ⟨directory, hdirectory, rfl⟩ := List.mem_map.mp hname
  obtain ⟨file, hfile, hparent⟩ := List.mem_filterMap.mp hdirectory
  exact unpainted_directoryName ((h file hfile).parent hparent)

end Draft

namespace Setup

theorem unpainted_messages {directories : List String} (stylesheets : Nat)
    (h : ∀ name ∈ directories, Text.Unpainted name) :
    ∀ message ∈ messages directories stylesheets, message.Unpainted := by
  have hcreated : Text.Unpainted (manifestName ++ " ("
      ++ Text.counted stylesheets "stylesheet" "stylesheets" ++ " found)") := by
    simp only [unpainted_append]
    exact ⟨⟨⟨by decide, by decide⟩, unpainted_counted _ (by decide) (by decide)⟩, by decide⟩
  refine List.forall_mem_append.mpr ⟨fun message hmessage => ?_,
    List.forall_mem_singleton.mpr ⟨by decide, List.forall_mem_singleton.mpr hcreated⟩⟩
  split at hmessage
  · cases hmessage
  · obtain rfl := List.mem_singleton.mp hmessage
    exact ⟨by decide, List.forall_mem_singleton.mpr (unpainted_intercalate (by decide) h)⟩

theorem unpainted_run (hfs : fs.root.Unpainted) {path : Path} (hpath : path.Unpainted)
    (force : Bool) : (run fs path force).Unpainted := by
  have hscanning : ∀ message ∈ [Message.status "Scanning" [.plain (fs.shown path)]],
      message.Unpainted :=
    List.forall_mem_singleton.mpr
      ⟨by decide, List.forall_mem_singleton.mpr (hpath.shownFrom _)⟩
  rw [run]
  split
  · exact List.forall_mem_nil _
  · dsimp only
    split
    · exact hscanning
    · next project hproject =>
      have hfiles := (Project.unpainted_of_atRoot hfs hpath hproject).files
      unfold writeDraft
      dsimp only
      split
      · exact hscanning
      · exact List.forall_mem_append.mpr
          ⟨hscanning, unpainted_messages _ (Draft.unpainted_directories hfiles)⟩

end Setup

/-! ### A directory with a manifest -/

namespace Project

/-- A project of a manifest and stylesheets next to it. -/
def directory (manifest : String) (stylesheets : List (String × String)) : FileSystem where
  root := .directory ((manifestName, .file manifest.toUTF8) ::
    stylesheets.map fun (name, text) => (name, .file text.toUTF8))
  workingDirectory := []

variable (manifest : String) (stylesheets : List (String × String))

theorem unpainted_directory (hmanifest : Text.Unpainted manifest)
    (hstylesheets : ∀ sheet ∈ stylesheets, Text.Unpainted sheet.1 ∧ Text.Unpainted sheet.2) :
    (directory manifest stylesheets).root.Unpainted := by
  have hname : Text.Unpainted manifestName := by decide
  have hfile : ∀ text : String, Text.Unpainted text → (Node.file text.toUTF8).Unpainted := by
    refine fun text htext => .file fun s hs => ?_
    rw [Reading.fromUTF8?_toUTF8] at hs
    exact Option.some.inj hs ▸ htext
  refine .directory (List.forall_mem_cons.mpr ⟨hname, ?_⟩)
    (List.forall_mem_cons.mpr ⟨hfile _ hmanifest, ?_⟩)
  · exact List.forall_mem_map.mpr fun sheet hsheet => (hstylesheets sheet hsheet).1
  · exact List.forall_mem_map.mpr fun sheet hsheet => hfile _ (hstylesheets sheet hsheet).2

theorem locate_directory {path : Path} (haccepted : FileSystem.refused? path = none)
    (hidle : ∀ s ∈ path.segments, Path.isIdle s) :
    (directory manifest stylesheets).locate path = .ok [] :=
  FileSystem.locate_eq_ok_iff.mpr ⟨haccepted, FileSystem.spells_of_idle rfl rfl hidle⟩

theorem isDirectory_directory {path : Path} (haccepted : FileSystem.refused? path = none)
    (hidle : ∀ s ∈ path.segments, Path.isIdle s) :
    (directory manifest stylesheets).isDirectory path = true := by
  rw [FileSystem.isDirectory, FileSystem.node?,
    locate_directory manifest stylesheets haccepted hidle]
  rfl

theorem holdsText_directory :
    (directory manifest stylesheets).HoldsText (manifestPath ⟨"."⟩) manifest := by
  have haccepted : FileSystem.refused? (manifestPath ⟨"."⟩) = none := by decide
  have hsegments : (manifestPath ⟨"."⟩).segments = [".", "styleguide.yaml"] := by decide
  have hfits : ¬ maxNameBytes < "styleguide.yaml".utf8ByteSize := by decide
  refine ⟨[manifestName], _, ?_, rfl, Reading.fromUTF8?_toUTF8 manifest⟩
  simp [FileSystem.locate, haccepted, hsegments, Node.follow, directory, FileSystem.origin, Node.at?,
    Path.isIdle, manifestName, hfits, Except.map]

theorem find_of_holdsText {text : String} {declared : Manifest}
    (htext : fs.HoldsText (manifestPath ⟨"."⟩) text) (hparse : Manifest.parse text = .ok declared) :
    find fs [] = .ok (ofManifest fs ⟨"."⟩ (some declared)) := by
  have hexists : fs.exists? (manifestPath ⟨"."⟩) = true := by
    obtain ⟨here, content, hlocate, hat, _⟩ := htext
    rw [FileSystem.exists?, FileSystem.node?, hlocate]
    exact Option.isSome_iff_exists.mpr ⟨_, hat⟩
  rw [find, if_pos List.isEmpty_nil, atRoot, manifestAt, if_pos hexists, Manifest.load,
    FileSystem.read_eq_ok_iff.mpr htext]
  dsimp only
  rw [hparse]
  rfl

theorem walk_directory : (directory manifest []).walk ⟨"./."⟩ = [⟨"././styleguide.yaml"⟩] := by
  have hlocate : (directory manifest []).locate ⟨"./."⟩ = .ok [] :=
    locate_directory manifest [] (by decide) (by decide)
  have hfile : ¬ (directory manifest []).isFile ⟨"./."⟩ = true := by
    rw [FileSystem.isFile, FileSystem.node?, hlocate]
    exact Bool.false_ne_true
  have hdepth : (directory manifest []).walkDepth = 4 := rfl
  have hentry : Path.join ⟨"./."⟩ ⟨manifestName⟩ = ⟨"././styleguide.yaml"⟩ := by decide
  rw [FileSystem.walk, if_neg hfile, hdepth]
  unfold FileSystem.walkFrom
  rw [hlocate]
  show (Node.sorted [(manifestName, _)]).flatMap _ = _
  rw [Node.sorted, List.mergeSort_singleton, List.flatMap_singleton]
  exact congrArg ([·]) hentry

theorem find_directory {declared : Manifest} (hparse : Manifest.parse manifest = .ok declared)
    (hsources : declared.sources = [])
    (hextensions : declared.extensions = ["scss", "less", "sass", "styl"]) :
    find (directory manifest []) [] = .ok ⟨⟨"."⟩, some declared, .empty⟩ := by
  have hdirectory : (directory manifest []).isDirectory ⟨"./."⟩ = true :=
    isDirectory_directory manifest [] (by decide) (by decide)
  have hsource : Path.join ⟨"."⟩ ⟨"."⟩ = ⟨"./."⟩ := by decide
  have hstylesheet : declared.isStylesheet ⟨"././styleguide.yaml"⟩ = false := by
    rw [Manifest.isStylesheet, hextensions]
    decide
  rw [find_of_holdsText (holdsText_directory manifest []) hparse]
  simp [ofManifest, Manifest.effectiveSources, hsources, Inventory.ofSources, Inventory.addSource,
    hsource, hdirectory, Inventory.ofDirectory, walk_directory, hstylesheet, Inventory.pushAll,
    Inventory.merge, Inventory.empty]

theorem makeParent_directory {path : Path} (hparent : path.parent? = some ⟨"."⟩) :
    (directory manifest []).makeParent path = (directory manifest [], .ok ()) := by
  have hdirectory : (directory manifest []).isDirectory ⟨"."⟩ = true :=
    isDirectory_directory manifest [] (by decide) (by decide)
  have haccepted : FileSystem.refused? ⟨"."⟩ = none := by decide
  have hnames : withoutTrailingSlashes (Path.mk ".").segments = ["."] := by decide
  have hmade : (directory manifest []).makeDirectory ⟨"."⟩ = .error .alreadyExists := by
    simp [FileSystem.makeDirectory, haccepted, hnames, Node.followToDirectory, Node.follow, directory,
      FileSystem.origin, Node.at?]
  simp [FileSystem.makeParent, hparent, FileSystem.makeDirectories, FileSystem.makeChain, hmade,
    hdirectory]

/-- A document with a new name can be written next to the manifest. -/
theorem exists_writeDocument_directory {path : Path} (name : String)
    (haccepted : FileSystem.refused? path = none) (hparent : path.parent? = some ⟨"."⟩)
    (hsegments : path.segments = ["."] ++ [name]) (hname : Node.IsName name)
    (hnew : name ≠ manifestName) (text : String) :
    ∃ files, (directory manifest []).writeDocument path text = (files, .ok ()) := by
  have hroot : (directory manifest []).root.at? [] = some (.directory _) := rfl
  have hreached : (directory manifest []).root.followToDirectory maxLinks [] ["."] =
      .ok ⟨[], [(manifestName, .file manifest.toUTF8)], maxLinks⟩ := by
    rw [Node.followToDirectory, Node.follow_of_idle hroot (by decide)]
    rfl
  have hslashes : withoutTrailingSlashes (["."] ++ [name]) = ["."] ++ [name] := by
    simp [withoutTrailingSlashes, hname.ne_empty]
  have htarget : (directory manifest []).root.writeTarget maxLinks [] (["."] ++ [name]) =
      .ok ([] ++ [name]) :=
    Node.writeTarget_of_free hslashes hreached hname (by simp [hnew])
  have horigin : (directory manifest []).origin path = [] := FileSystem.origin_eq_nil rfl path
  refine ⟨(directory manifest []).put [name] (.file text.toUTF8), ?_⟩
  rw [FileSystem.writeDocument, makeParent_directory manifest hparent]
  dsimp only
  rw [FileSystem.write, haccepted, horigin, hsegments, htarget]
  rfl

end Project

/-! ### The statement -/

/-- **No argument of a command holds paint.** -/
def Command.Unpainted : Command → Prop
  | .build request => request.Unpainted
  | .list paths => ∀ p ∈ paths, p.Unpainted
  | .validate paths => ∀ p ∈ paths, p.Unpainted
  | .init path _ => path.Unpainted
  | .completions _ => True

/-- Only a build says what a manifest declares. -/
def Command.DeclaresUnpainted (fs : FileSystem) : Command → Prop
  | .build request => request.DeclaresUnpainted fs
  | _ => True

/-- **A command says nothing with paint in it**, if none comes in from outside. -/
theorem Command.unpainted_run (hfs : fs.root.Unpainted) {command : Command}
    (h : command.Unpainted) (hdeclares : command.DeclaresUnpainted fs) :
    (command.run fs).Unpainted := by
  cases command with
  | build request => exact BuildRequest.unpainted_run hfs h hdeclares
  | list paths => exact Survey.unpainted_list paths
  | validate paths => exact Survey.unpainted_validate hfs h
  | init path force => exact Setup.unpainted_run hfs h force
  | completions shell => exact List.forall_mem_nil _

/-- **How messages are shown decides nothing.**  How a command ends, what it prints and the files it
leaves behind are the same whether it is quiet or not and whether its messages go to a terminal or not.
And where neither the tree nor an argument of the command holds paint, nor the output of a manifest
that a build writes to, what a terminal shows is, without its paint, exactly what is shown elsewhere. -/
theorem Invocation.run_presentation (fs : FileSystem) (command : Command) :
    (∀ quiet quiet' onTerminal onTerminal',
      let seen := Invocation.run fs onTerminal ⟨quiet, command⟩
      let seen' := Invocation.run fs onTerminal' ⟨quiet', command⟩
      seen.result = seen'.result ∧ seen.output = seen'.output ∧ seen.files = seen'.files) ∧
    (fs.root.Unpainted → command.Unpainted → command.DeclaresUnpainted fs → ∀ quiet,
      Terminal.withoutPaint (Invocation.run fs true ⟨quiet, command⟩).said =
        (Invocation.run fs false ⟨quiet, command⟩).said) := by
  refine ⟨fun _ _ _ _ => ⟨rfl, rfl, rfl⟩, fun hfs hcommand hdeclares quiet => ?_⟩
  have hsaid : (command.run fs).Unpainted := Command.unpainted_run hfs hcommand hdeclares
  exact (Terminal.shows_renderAll quiet hsaid).withoutPaint_eq

/-- Two stylesheets, the second of which is cut off, and a manifest with an output. -/
theorem Invocation.run_presentation_directory :
    let fs := Project.directory "output: \"out/guide.html\"\n"
      [("a.scss", "// Tables\n//\n// Styleguide 1.10\n\n"),
        ("b.scss", "// Buttons\n//\n// Styleguide 1.2")]
    let command := Command.build { stylesheet := some "main.css" }
    (fs.root.Unpainted ∧ command.Unpainted ∧ command.DeclaresUnpainted fs) ∧ ∀ quiet,
      Terminal.withoutPaint (Invocation.run fs true ⟨quiet, command⟩).said =
        (Invocation.run fs false ⟨quiet, command⟩).said := by
  intro fs command
  have hfs : fs.root.Unpainted := Project.unpainted_directory _ _ (by decide) (by decide)
  have hcommand : command.Unpainted := ⟨nofun, by decide, nofun, nofun⟩
  have hparse : Manifest.parse "output: \"out/guide.html\"\n" = .ok { output := ⟨"out/guide.html"⟩ } := by
    decide +kernel
  have hfind : Project.find fs [] = _ :=
    Project.find_of_holdsText (Project.holdsText_directory _ _) hparse
  have hdeclares : command.DeclaresUnpainted fs := by
    intro project declared hproject hdeclared _ _
    cases hfind.symm.trans hproject
    cases hdeclared
    decide
  exact ⟨⟨hfs, hcommand, hdeclares⟩,
    (Invocation.run_presentation fs command).2 hfs hcommand hdeclares⟩

/-- **An escape of a manifest is paint that stands nowhere.**  The output is the path `\x1b[1mguide.html`,
written without the escape character, and what a terminal shows of it loses the `\x1b[1m`. -/
theorem Invocation.paint_of_escape :
    let fs := Project.directory "output: \"\\e[1mguide.html\"\n" []
    let command := Command.build { stylesheet := some "main.css" }
    (fs.root.Unpainted ∧ command.Unpainted) ∧
      Terminal.withoutPaint (Invocation.run fs true ⟨false, command⟩).said ≠
        (Invocation.run fs false ⟨false, command⟩).said := by
  intro fs command
  have hfs : fs.root.Unpainted := Project.unpainted_directory _ _ (by decide) (by decide)
  have hcommand : command.Unpainted := ⟨nofun, by decide, nofun, nofun⟩
  have hparse : Manifest.parse "output: \"\\e[1mguide.html\"\n" =
      .ok { output := ⟨"\x1b[1mguide.html"⟩ } := by
    decide +kernel
  let request : BuildRequest := { stylesheet := some "main.css" }
  let project : Project := ⟨⟨"."⟩, some { output := ⟨"\x1b[1mguide.html"⟩ }, .empty⟩
  let reading : Reading := ⟨⟨[]⟩, [], ⟨[]⟩⟩
  let page : Page := ⟨"Styleguide", some "main.css"⟩
  have hfind : Project.find fs request.paths = .ok project := Project.find_directory _ hparse rfl rfl
  have hreading : Reading.ofFiles fs project.inventory.files = .ok reading := by decide +kernel
  have hdocument : request.document project.manifest reading.guide.blocks = .ok (page.render []) := rfl
  have hpath : request.outputPath project = ⟨"./\x1b[1mguide.html"⟩ := by decide +kernel
  obtain ⟨files, hwritten⟩ : ∃ files,
      fs.writeDocument (request.outputPath project) (page.render []) = (files, .ok ()) := by
    rw [hpath]
    exact Project.exists_writeDocument_directory _ "\x1b[1mguide.html" (by decide) (by decide)
      (by decide) (by decide) (by decide) _
  have hmessages := BuildRequest.messages_run hfind hreading hdocument rfl hwritten
  have hbefore : ∀ message ∈ BuildRequest.scanMessages fs project
      ++ BuildRequest.readMessages fs request reading, message.Unpainted :=
    List.forall_mem_append.mpr ⟨BuildRequest.unpainted_scanMessages fs ⟨by decide, nofun⟩,
      BuildRequest.unpainted_readMessages fs request ⟨nofun, nofun⟩⟩
  refine ⟨⟨hfs, hcommand⟩, ?_⟩
  show Terminal.withoutPaint (Terminal.renderAll ⟨true, false⟩ (request.run fs).messages) ≠
    Terminal.renderAll ⟨false, false⟩ (request.run fs).messages
  rw [hmessages, hpath, Ne, Terminal.withoutPaint_concat_eq_iff false hbefore]
  decide +kernel

end LivingGuide
