import LivingGuide.Proofs.Text
import LivingGuide.Terminal

/-!
# Paint comes off

A terminal with colours puts control sequences around parts of what it shows, and nothing else.  So
when the sequences are taken out of what it showed, what is left is what a terminal without colours
shows, provided the messages themselves hold none:

    erasePaint (painted ++ rest) = plain ++ erasePaint rest

for every rest (`Terminal.Shows painted plain`).  This form can be put together from parts, and the
parts are nested as the paint is: a span in a line, a label before a faint text.

* `Text.Unpainted`: a text without the character that starts a control sequence.
* `Terminal.erasePaint`: a text without its control sequences.
* `Terminal.shows_renderAll`: **messages without paint of their own are shown alike.**
-/

namespace LivingGuide

/-! ### Texts without paint -/

namespace Text

/-- A text without the escape character, with which control sequences start. -/
def Unpainted (s : String) : Prop :=
  '\x1b' ∉ s.toList

instance (s : String) : Decidable (Unpainted s) :=
  inferInstanceAs (Decidable ('\x1b' ∉ s.toList))

theorem Unpainted.of_subset {s t : String} (ht : Unpainted t) (h : s.toList ⊆ t.toList) :
    Unpainted s :=
  fun hmem => ht (h hmem)

/-- A literal is checked by its characters. -/
theorem unpainted_ofList {cs : List Char} (h : '\x1b' ∉ cs) : Unpainted (String.ofList cs) := by
  rwa [Unpainted, String.toList_ofList]

@[simp] theorem unpainted_append {s t : String} :
    Unpainted (s ++ t) ↔ Unpainted s ∧ Unpainted t := by
  rw [Unpainted, String.toList_append, List.mem_append, not_or]
  rfl

theorem unpainted_intercalate {sep : String} {texts : List String} (hsep : Unpainted sep)
    (h : ∀ s ∈ texts, Unpainted s) : Unpainted (sep.intercalate texts) := by
  intro hmem
  rw [String.toList_intercalate] at hmem
  rcases mem_intercalate hmem with hmem | ⟨cs, hcs, hmem⟩
  · exact hsep hmem
  · obtain ⟨s, hs, rfl⟩ := List.mem_map.mp hcs
    exact h s hs hmem

theorem isDigit_of_mem_repr {n : Nat} {c : Char} (h : c ∈ n.repr.toList) : c.isDigit = true := by
  rw [Nat.toList_repr] at h
  exact Nat.isDigit_of_mem_toDigits (by decide) (by decide) h

@[simp] theorem unpainted_repr (n : Nat) : Unpainted n.repr :=
  fun h => absurd (isDigit_of_mem_repr h) (by decide)

theorem unpainted_counted (n : Nat) {singular plural : String} (hsingular : Unpainted singular)
    (hplural : Unpainted plural) : Unpainted (counted n singular plural) := by
  rw [counted]
  split <;> simp [hsingular, hplural] <;> decide

theorem unpainted_alignRight {s : String} (width : Nat) (h : Unpainted s) :
    Unpainted (alignRight width s) := by
  rw [alignRight, unpainted_append]
  refine ⟨fun hmem => ?_, h⟩
  rw [String.toList_ofList] at hmem
  exact absurd (List.eq_of_mem_replicate hmem) (by decide)

end Text

open Text

/-- The parts of a finding that are shown hold no paint. -/
structure Finding.Unpainted (f : Finding) : Prop where
  code : Text.Unpainted f.code
  message : Text.Unpainted f.message
  sectionText : ∀ s ∈ f.sectionText, Text.Unpainted s
  help : ∀ s ∈ f.help, Text.Unpainted s

theorem Finding.Unpainted.line {f : Finding} (h : f.Unpainted) : Text.Unpainted f.text := by
  have hline : Text.Unpainted ("[" ++ f.code ++ "] " ++ f.message) := by
    simp only [unpainted_append]
    exact ⟨⟨⟨by decide, h.code⟩, by decide⟩, h.message⟩
  unfold Finding.text
  split
  · next s hs =>
    simp only [unpainted_append] at hline ⊢
    exact ⟨⟨⟨hline, by decide⟩, h.sectionText s hs⟩, by decide⟩
  · exact hline

/-- The text of a span, whatever its tone. -/
def Span.text : Span → String
  | .plain text => text
  | .dim text => text
  | .cyan text => text

/-- The texts of a message hold no paint. -/
def Message.Unpainted : Message → Prop
  | .status verb text => Text.Unpainted verb ∧ ∀ span ∈ text, Text.Unpainted span.text
  | .info verb text => Text.Unpainted verb ∧ ∀ span ∈ text, Text.Unpainted span.text
  | .warning verb text => Text.Unpainted verb ∧ ∀ span ∈ text, Text.Unpainted span.text
  | .finding found => found.Unpainted

namespace Terminal

/-! ### Taking paint off -/

/-- What follows the control sequence that a text starts with: an escape, a bracket, one or more
digits and an `m`. -/
def afterSequence? : List Char → Option (List Char)
  | '\x1b' :: '[' :: cs =>
    match cs.takeWhile Char.isDigit, cs.dropWhile Char.isDigit with
    | _ :: _, 'm' :: rest => some rest
    | _, _ => none
  | _ => none

theorem length_afterSequence?_lt {cs rest : List Char} (h : afterSequence? cs = some rest) :
    rest.length < cs.length := by
  unfold afterSequence? at h
  split at h
  · next cs =>
    split at h
    · next hrest =>
      obtain rfl := Option.some.inj h
      have hle := length_dropWhile_le Char.isDigit cs
      rw [hrest] at hle
      simp only [List.length_cons] at hle ⊢
      omega
    · cases h
  · cases h

/-- **A text without its control sequences.** -/
def erasePaint : List Char → List Char
  | [] => []
  | c :: cs =>
    match _h : afterSequence? (c :: cs) with
    | some rest => erasePaint rest
    | none => c :: erasePaint cs
termination_by cs => cs.length
decreasing_by
  · exact length_afterSequence?_lt _h
  · simp

/-- A string without its control sequences. -/
def withoutPaint (s : String) : String :=
  String.ofList (erasePaint s.toList)

@[simp] theorem erasePaint_nil : erasePaint [] = [] := by
  rw [erasePaint]

theorem erasePaint_cons_of_ne {c : Char} (hc : c ≠ '\x1b') (cs : List Char) :
    erasePaint (c :: cs) = c :: erasePaint cs := by
  have hnone : afterSequence? (c :: cs) = none := by
    unfold afterSequence?
    split
    · next heq => exact absurd (List.cons.inj heq).1 hc
    · rfl
  rw [erasePaint]
  split
  · next hsome => rw [hnone] at hsome; cases hsome
  · rfl

theorem toList_sequence (n : Nat) :
    (sequence n).toList = '\x1b' :: '[' :: (n.repr.toList ++ ['m']) := by
  rw [sequence, String.toList_append, String.toList_append]
  rfl

theorem afterSequence?_sequence (n : Nat) (rest : List Char) :
    afterSequence? ((sequence n).toList ++ rest) = some rest := by
  have hstop : ∀ c ∈ ('m' :: rest).head?, c.isDigit = false := by
    rintro c ⟨⟩
    rfl
  have hcut := span_of_stop (fun c (hc : c ∈ n.repr.toList) => isDigit_of_mem_repr hc) hstop
  have hdigits : n.repr.toList ≠ [] := by
    rw [Nat.toList_repr]
    exact Nat.toDigits_ne_nil
  rw [toList_sequence, List.cons_append, List.cons_append, List.append_assoc, List.singleton_append,
    afterSequence?, hcut.1, hcut.2]
  obtain ⟨d, ds, hd⟩ := List.exists_cons_of_ne_nil hdigits
  simp only [hd]

theorem erasePaint_sequence (n : Nat) (rest : List Char) :
    erasePaint ((sequence n).toList ++ rest) = erasePaint rest := by
  have hafter := afterSequence?_sequence n rest
  rw [toList_sequence] at hafter ⊢
  rw [List.cons_append, erasePaint]
  rw [List.cons_append] at hafter
  split
  · next hsome =>
    rw [hafter] at hsome
    rw [Option.some.inj hsome]
  · next hnone => rw [hafter] at hnone; cases hnone

/-! ### What is shown with and without paint -/

/-- **A painted text shows a plain one**: the plain one is left when the paint is taken off, whatever
follows. -/
def Shows (painted plain : String) : Prop :=
  ∀ rest, erasePaint (painted.toList ++ rest) = plain.toList ++ erasePaint rest

theorem Shows.append {s t s' t' : String} (hs : Shows s s') (ht : Shows t t') :
    Shows (s ++ t) (s' ++ t') := by
  intro rest
  rw [String.toList_append, String.toList_append, List.append_assoc, List.append_assoc, hs, ht]

theorem Shows.withoutPaint_eq {s s' : String} (h : Shows s s') : withoutPaint s = s' := by
  have hrest := h []
  rw [erasePaint_nil, List.append_nil, List.append_nil] at hrest
  rw [withoutPaint, hrest, String.ofList_toList]

/-- Sequences without a number or with two are no paint of this terminal, and stay. -/
example : withoutPaint "\x1b[1m\x1b[32mok\x1b[0m \x1b[m \x1b[1;2m" = "ok \x1b[m \x1b[1;2m" := by
  decide +kernel

theorem shows_join {α : Type} {f g : α → String} {xs : List α} (h : ∀ x ∈ xs, Shows (f x) (g x)) :
    Shows (String.join (xs.map f)) (String.join (xs.map g)) := by
  induction xs with
  | nil => exact fun _ => rfl
  | cons x xs ih =>
    obtain ⟨hx, hxs⟩ := List.forall_mem_cons.mp h
    rw [List.map_cons, List.map_cons, String.join_cons, String.join_cons]
    exact hx.append (ih hxs)

theorem shows_self {s : String} (h : Unpainted s) : Shows s s := by
  intro rest
  have hchars : ∀ cs : List Char, '\x1b' ∉ cs → erasePaint (cs ++ rest) = cs ++ erasePaint rest := by
    intro cs hcs
    induction cs with
    | nil => rfl
    | cons c cs ih =>
      have hc : c ≠ '\x1b' := fun heq => hcs (heq ▸ List.mem_cons_self)
      rw [List.cons_append, erasePaint_cons_of_ne hc, ih (fun h => hcs (List.mem_cons_of_mem c h)),
        List.cons_append]
  exact hchars s.toList h

theorem shows_sequence (n : Nat) : Shows (sequence n) "" :=
  fun rest => erasePaint_sequence n rest

theorem shows_sequences (m n : Nat) : Shows (sequence m ++ sequence n) "" :=
  (shows_sequence m).append (shows_sequence n)

variable (quiet : Bool)

theorem shows_paint {colour text : String} (hcolour : Shows colour "") (htext : Unpainted text) :
    Shows (paint ⟨true, quiet⟩ colour text) (paint ⟨false, quiet⟩ colour text) := by
  have hpainted := (hcolour.append (shows_self htext)).append (shows_sequence 0)
  rwa [String.empty_append, String.append_empty] at hpainted

theorem shows_showSpan {span : Span} (h : Unpainted span.text) :
    Shows (showSpan ⟨true, quiet⟩ span) (showSpan ⟨false, quiet⟩ span) := by
  cases span with
  | plain text => exact shows_self h
  | dim text => exact shows_paint quiet (shows_sequence 2) h
  | cyan text => exact shows_paint quiet (shows_sequence 36) h

/-- **The verb is moved to the right before it is painted**, so its column is as wide with paint. -/
theorem shows_showLine (colour : Nat) {verb : String} {text : List Span} (hverb : Unpainted verb)
    (htext : ∀ span ∈ text, Unpainted span.text) :
    Shows (showLine ⟨true, quiet⟩ (sequence colour) verb text)
      (showLine ⟨false, quiet⟩ (sequence colour) verb text) := by
  have hpaint := shows_paint quiet (shows_sequences 1 colour) (unpainted_alignRight verbWidth hverb)
  have hspans := shows_join fun span hspan => shows_showSpan quiet (htext span hspan)
  exact ((hpaint.append (shows_self (by decide))).append hspans).append (shows_self (by decide))

theorem shows_showFinding {f : Finding} (h : f.Unpainted) :
    Shows (showFinding ⟨true, quiet⟩ f) (showFinding ⟨false, quiet⟩ f) := by
  have hlabel : Shows (showLabel ⟨true, quiet⟩ (f.severity == .error) f.severity.label)
      (showLabel ⟨false, quiet⟩ (f.severity == .error) f.severity.label) := by
    cases f.severity with
    | warning => exact shows_paint quiet (shows_sequences 1 33) (by decide)
    | error => exact shows_paint quiet (shows_sequences 1 31) (by decide)
  have htext : Unpainted (" " ++ f.text) := unpainted_append.mpr ⟨by decide, h.line⟩
  have hline := (hlabel.append (shows_paint quiet (shows_sequence 2) htext)).append
    (shows_self (s := "\n") (by decide))
  refine hline.append ?_
  split
  · next help hhelp =>
    have hmark : Shows (paint ⟨true, quiet⟩ cyan "help:") (paint ⟨false, quiet⟩ cyan "help:") :=
      shows_paint quiet (shows_sequence 36) (by decide)
    have hadvice := shows_self (h.help help hhelp)
    exact ((((shows_self (by decide)).append hmark).append (shows_self (by decide))).append
      hadvice).append (shows_self (by decide))
  · exact shows_self (by decide)

theorem shows_render {message : Message} (h : message.Unpainted) :
    Shows (render ⟨true, quiet⟩ message) (render ⟨false, quiet⟩ message) := by
  cases message with
  | status verb text =>
    cases quiet with
    | true => exact shows_self (s := "") (by decide)
    | false => exact shows_showLine false 32 h.1 h.2
  | info verb text =>
    cases quiet with
    | true => exact shows_self (s := "") (by decide)
    | false => exact shows_showLine false 36 h.1 h.2
  | warning verb text => exact shows_showLine quiet 33 h.1 h.2
  | finding found => exact shows_showFinding quiet h

/-- **Messages without paint of their own are shown alike**, with and without colours. -/
theorem shows_renderAll {messages : List Message} (h : ∀ message ∈ messages, message.Unpainted) :
    Shows (renderAll ⟨true, quiet⟩ messages) (renderAll ⟨false, quiet⟩ messages) :=
  shows_join fun message hmessage => shows_render quiet (h message hmessage)

theorem renderAll_concat (terminal : Terminal) (messages : List Message) (last : Message) :
    terminal.renderAll (messages ++ [last]) = terminal.renderAll messages ++ terminal.render last := by
  rw [renderAll, List.map_append, List.map_singleton, String.join_append, String.join_cons,
    String.join_nil, String.append_empty]
  rfl

/-- Behind messages without paint of their own the last one decides. -/
theorem withoutPaint_concat_eq_iff {messages : List Message}
    (h : ∀ message ∈ messages, message.Unpainted) (last : Message) :
    withoutPaint (renderAll ⟨true, quiet⟩ (messages ++ [last])) =
        renderAll ⟨false, quiet⟩ (messages ++ [last]) ↔
      withoutPaint (render ⟨true, quiet⟩ last) = render ⟨false, quiet⟩ last := by
  rw [renderAll_concat, renderAll_concat, withoutPaint, String.toList_append, shows_renderAll quiet h,
    String.ofList_append, String.ofList_toList, ← withoutPaint, String.append_right_inj]

end Terminal

end LivingGuide
