import LivingGuide.Export
import LivingGuide.Proofs.Json.Reader
import Mathlib.Logic.Function.Basic

/-!
# The export of blocks says what the blocks are

A value that is written over lines is read back, whatever follows it.  The two steps of reading are
taken one after the other: the written text falls into the tokens of the value, where line breaks
and indentation are gone (`tokens?_prettyChars`),

    tokens? (v.prettyChars level ++ rest) = (tokens? rest).map (v.tokens ++ ·),

and the machine goes over these tokens as over one value, inside any frames (`value?_tokens`),

    value? frames (v.tokens ++ rest) = after? frames v.datum rest.

So the export of a list of blocks is read as the array of their views, with every text as it is in
the block, and two lists with the same export are the same.
-/

namespace LivingGuide

namespace Json

/-! ### The tokens of a value -/

mutual

def tokens : Json → List Token
  | .null => [.scalar .null]
  | .bool value => [.scalar (.bool value)]
  | .string text => [.scalar (.string text)]
  | .array items => .openArray :: itemsTokens items ++ [.closeArray]
  | .object fields => .openObject :: fieldsTokens fields ++ [.closeObject]

/-- The tokens of items, with commas between them. -/
def itemsTokens : List Json → List Token
  | [] => []
  | [item] => item.tokens
  | item :: items => item.tokens ++ .comma :: itemsTokens items

/-- The tokens of fields, with commas between them. -/
def fieldsTokens : List (String × Json) → List Token
  | [] => []
  | [(key, value)] => .scalar (.string key) :: .colon :: value.tokens
  | (key, value) :: fields =>
    .scalar (.string key) :: .colon :: (value.tokens ++ .comma :: fieldsTokens fields)

end

mutual

/-- What a value says. -/
def datum : Json → Datum
  | .null => .null
  | .bool value => .bool value
  | .string text => .string text
  | .array items => .array (itemsData items)
  | .object fields => .object (fieldsData fields)

def itemsData : List Json → List Datum
  | [] => []
  | item :: items => item.datum :: itemsData items

def fieldsData : List (String × Json) → List (String × Datum)
  | [] => []
  | (key, value) :: fields => (key, value.datum) :: fieldsData fields

end

/-! ### Strings -/

theorem hexValue?_hexDigit : ∀ n < 16, hexValue? (hexDigit n) = some n := by
  decide

theorem unicode?_hexDigit {c : Char} (hc : c.toNat < 0x20) (rest : List Char) :
    unicode? ('0' :: '0' :: hexDigit (c.toNat / 16) :: hexDigit (c.toNat % 16) :: rest) =
      some (c, rest) := by
  have hzero : hexValue? '0' = some 0 := by decide
  have hhigh := hexValue?_hexDigit (c.toNat / 16) (by omega)
  have hlow := hexValue?_hexDigit (c.toNat % 16) (by omega)
  have hvalue : ((0 * 16 + 0) * 16 + c.toNat / 16) * 16 + c.toNat % 16 = c.toNat := by omega
  rw [unicode?, codeUnit?, hzero, hhigh, hlow]
  simp only [hvalue]
  rw [if_pos (by omega), Char.ofNat_toNat]

theorem escapeChar_cases (c : Char) :
    (∃ letter, letter ≠ 'u' ∧ escapes.lookup letter = some c ∧ escapeChar c = ['\\', letter]) ∨
      (c.toNat < 0x20 ∧ escapeChar c =
        ['\\', 'u', '0', '0', hexDigit (c.toNat / 16), hexDigit (c.toNat % 16)]) ∨
      (c ≠ '"' ∧ c ≠ '\\' ∧ ¬ c.toNat < 0x20 ∧ escapeChar c = [c]) := by
  have hletter : ∀ letter meant, letter ≠ 'u' → escapes.lookup letter = some meant →
      escapeChar meant = ['\\', letter] → c = meant →
      ∃ letter, letter ≠ 'u' ∧ escapes.lookup letter = some c ∧ escapeChar c = ['\\', letter] := by
    rintro letter meant hu hlookup hescape rfl
    exact ⟨letter, hu, hlookup, hescape⟩
  by_cases hquote : c = '"'
  · exact .inl (hletter '"' '"' (by decide) (by decide) (by decide) hquote)
  by_cases hslash : c = '\\'
  · exact .inl (hletter '\\' '\\' (by decide) (by decide) (by decide) hslash)
  by_cases hb : c = '\x08'
  · exact .inl (hletter 'b' '\x08' (by decide) (by decide) (by decide) hb)
  by_cases hf : c = '\x0c'
  · exact .inl (hletter 'f' '\x0c' (by decide) (by decide) (by decide) hf)
  by_cases hn : c = '\n'
  · exact .inl (hletter 'n' '\n' (by decide) (by decide) (by decide) hn)
  by_cases hr : c = '\r'
  · exact .inl (hletter 'r' '\r' (by decide) (by decide) (by decide) hr)
  by_cases ht : c = '\t'
  · exact .inl (hletter 't' '\t' (by decide) (by decide) (by decide) ht)
  have hescape : escapeChar c = if c.toNat < 0x20 then
      ['\\', 'u', '0', '0', hexDigit (c.toNat / 16), hexDigit (c.toNat % 16)] else [c] := by
    simp only [escapeChar, beq_iff_eq, hquote, hslash, hb, hf, hn, hr, ht, if_false]
  by_cases hlow : c.toNat < 0x20
  · exact .inr (.inl ⟨hlow, by rw [hescape, if_pos hlow]⟩)
  · exact .inr (.inr ⟨hquote, hslash, hlow, by rw [hescape, if_neg hlow]⟩)

theorem character?_escapeChar (c : Char) (rest : List Char) :
    character? (escapeChar c ++ rest) = some (c, rest) := by
  obtain ⟨letter, hu, hlookup, h⟩ | ⟨hlow, h⟩ | ⟨hquote, hslash, hlow, h⟩ := escapeChar_cases c
  · rw [h, List.cons_append, List.cons_append, List.nil_append, character?, if_neg hu, hlookup,
      Option.map_some]
  · rw [h]
    change character? ('\\' :: 'u' :: '0' :: '0' :: hexDigit (c.toNat / 16)
      :: hexDigit (c.toNat % 16) :: rest) = some (c, rest)
    rw [character?, if_pos rfl, unicode?_hexDigit hlow]
  · rw [h, List.singleton_append, character?.eq_def]
    split
    · next hnil => cases hnil
    · next hbackslash => cases hbackslash; exact absurd rfl hslash
    · next hbackslash => cases hbackslash; exact absurd rfl hslash
    · next hcons =>
      cases hcons
      rw [if_neg (by rw [not_or]; exact ⟨hquote, hlow⟩)]

theorem head?_escapeChar (c : Char) (rest : List Char) :
    (escapeChar c ++ rest).head? ≠ some '"' := by
  obtain ⟨letter, -, -, h⟩ | ⟨-, h⟩ | ⟨hquote, -, -, h⟩ := escapeChar_cases c
  · rw [h]
    simp
  · rw [h]
    simp
  · rw [h]
    simpa using hquote

theorem stringRest?_escaped (cs rest : List Char) :
    stringRest? (cs.flatMap escapeChar ++ '"' :: rest) = some (cs, rest) := by
  induction cs with
  | nil => rw [List.flatMap_nil, List.nil_append, stringRest?, List.head?_cons, if_pos rfl]; rfl
  | cons c cs ih =>
    rw [List.flatMap_cons, List.append_assoc, stringRest?, if_neg (head?_escapeChar c _)]
    split
    · next h => rw [character?_escapeChar] at h; cases h
    · next d tail h =>
      rw [character?_escapeChar] at h
      cases h
      rw [ih]
      rfl

theorem token?_quoted (s : String) (rest : List Char) :
    token? (quoted s ++ rest) = some (.scalar (.string s), rest) := by
  have hquoted : quoted s ++ rest = '"' :: (s.toList.flatMap escapeChar ++ '"' :: rest) := by
    simp [quoted]
  rw [hquoted, token?, stringRest?_escaped, Option.map_some, String.ofList_toList]

/-! ### Induction over values -/

/-- What holds of an array when it holds of its items, and of an object when it holds of the values
in it, holds of every value. -/
@[elab_as_elim]
theorem induct {motive : Json → Prop} (null : motive .null) (bool : ∀ value, motive (.bool value))
    (string : ∀ text, motive (.string text))
    (array : ∀ items, (∀ item ∈ items, motive item) → motive (.array items))
    (object : ∀ fields, (∀ field ∈ fields, motive field.2) → motive (.object fields)) (v : Json) :
    motive v := by
  refine @Json.rec motive (fun items => ∀ item ∈ items, motive item)
    (fun fields => ∀ field ∈ fields, motive field.2) (fun field => motive field.2)
    null bool string array object ?_ ?_ ?_ ?_ (fun _ _ h => h) v
  · exact fun item h => absurd h (by simp)
  · exact fun item items hitem hitems => List.forall_mem_cons.mpr ⟨hitem, hitems⟩
  · exact fun field h => absurd h (by simp)
  · exact fun field fields hfield hfields => List.forall_mem_cons.mpr ⟨hfield, hfields⟩

/-! ### The text of a value falls into its tokens -/

theorem tokens?_token {c : Char} {cs rest : List Char} {token : Token} (hc : isSpace c = false)
    (h : token? (c :: cs) = some (token, rest)) :
    tokens? (c :: cs) = (tokens? rest).map (token :: ·) := by
  have hspace : ¬ isSpace c = true := by rw [hc]; exact Bool.false_ne_true
  rw [tokens?, List.dropWhile_cons_of_neg hspace]
  split
  · next hnil => cases hnil
  · next d tail hcons =>
    cases hcons
    split
    · next hnone =>
      rw [hnone] at h
      cases h
    · next found left hsome =>
      rw [hsome] at h
      cases h
      rfl

/-- Whatever follows the text, its tokens come before the tokens of what follows. -/
def FallsInto (text : List Char) (tokens : List Token) : Prop :=
  ∀ rest, tokens? (text ++ rest) = (tokens? rest).map (tokens ++ ·)

theorem fallsInto_nil : FallsInto [] [] := by
  intro rest
  rw [List.nil_append]
  exact Option.map_id.symm ▸ rfl

theorem FallsInto.append {text text' : List Char} {tokens tokens' : List Token}
    (h : FallsInto text tokens) (h' : FallsInto text' tokens') :
    FallsInto (text ++ text') (tokens ++ tokens') := by
  intro rest
  rw [List.append_assoc, h, h', Option.map_map]
  congr 1
  funext found
  exact (List.append_assoc tokens tokens' found).symm

theorem FallsInto.cons {c : Char} {token : Token} {text : List Char} {tokens : List Token}
    (hc : isSpace c = false) (htoken : ∀ rest, token? (c :: rest) = some (token, rest))
    (h : FallsInto text tokens) : FallsInto (c :: text) (token :: tokens) := by
  intro rest
  rw [List.cons_append, tokens?_token hc (htoken _), h, Option.map_map]
  rfl

theorem FallsInto.space {c : Char} {text : List Char} {tokens : List Token}
    (hc : isSpace c = true) (h : FallsInto text tokens) : FallsInto (c :: text) tokens := by
  intro rest
  rw [List.cons_append, tokens?, List.dropWhile_cons_of_pos hc, ← tokens?, h]

theorem fallsInto_newLine (level : Nat) : FallsInto (newLine level) [] := by
  refine .space (by decide) ?_
  induction 2 * level with
  | zero => exact fallsInto_nil
  | succ n ih => exact .space (by decide) ih

theorem fallsInto_quoted (s : String) : FallsInto (quoted s) [.scalar (.string s)] := by
  intro rest
  exact tokens?_token rfl (token?_quoted s rest)

theorem fallsInto_boolWord (value : Bool) : FallsInto (boolWord value) [.scalar (.bool value)] := by
  intro rest
  cases value with
  | true => exact tokens?_token rfl rfl
  | false => exact tokens?_token rfl rfl

theorem fallsInto_prettyItems {items : List Json} {level : Nat}
    (h : ∀ item ∈ items, FallsInto (item.prettyChars level) item.tokens) :
    FallsInto (prettyItems level items) (itemsTokens items) := by
  induction items with
  | nil => exact fallsInto_nil
  | cons item items ih =>
    have hitem := (fallsInto_newLine level).append (h item List.mem_cons_self)
    cases items with
    | nil => exact hitem
    | cons next items =>
      have hitems := ih fun v hv => h v (List.mem_cons_of_mem item hv)
      exact hitem.append (hitems.cons rfl fun rest => rfl)

theorem fallsInto_prettyFields {fields : List (String × Json)} {level : Nat}
    (h : ∀ field ∈ fields, FallsInto (field.2.prettyChars level) field.2.tokens) :
    FallsInto (prettyFields level fields) (fieldsTokens fields) := by
  induction fields with
  | nil => exact fallsInto_nil
  | cons field fields ih =>
    obtain ⟨key, value⟩ := field
    have hkey := (fallsInto_newLine level).append (fallsInto_quoted key)
    have hvalue : FallsInto (' ' :: value.prettyChars level) value.tokens :=
      (h (key, value) List.mem_cons_self).space (by decide)
    have hfield : FallsInto (newLine level ++ quoted key ++ ':' :: ' ' :: value.prettyChars level)
        (.scalar (.string key) :: .colon :: value.tokens) :=
      hkey.append (hvalue.cons rfl fun rest => rfl)
    cases fields with
    | nil => exact hfield
    | cons next fields =>
      have hfields := ih fun v hv => h v (List.mem_cons_of_mem _ hv)
      exact hfield.append (hfields.cons rfl fun rest => rfl)

theorem FallsInto.close {c : Char} {token : Token} {text : List Char} {tokens : List Token}
    (hc : isSpace c = false) (htoken : ∀ rest, token? (c :: rest) = some (token, rest))
    (h : FallsInto text tokens) (level : Nat) :
    FallsInto (text ++ newLine level ++ [c]) (tokens ++ [token]) := by
  rw [List.append_assoc]
  exact h.append ((fallsInto_newLine level).append (fallsInto_nil.cons hc htoken))

/-- **The text of a value over lines falls into the tokens of the value.** -/
theorem fallsInto_prettyChars (v : Json) (level : Nat) :
    FallsInto (v.prettyChars level) v.tokens := by
  induction v using induct generalizing level with
  | null => exact fun rest => tokens?_token rfl rfl
  | bool value => exact fallsInto_boolWord value
  | string text => exact fallsInto_quoted text
  | array items ih =>
    cases items with
    | nil =>
      have hclose : FallsInto [']'] [.closeArray] := fallsInto_nil.cons rfl fun rest => rfl
      exact hclose.cons rfl fun rest => rfl
    | cons item items =>
      have hitems := fallsInto_prettyItems fun v hv => ih v hv (level + 1)
      have hopen : FallsInto ('[' :: prettyItems (level + 1) (item :: items))
          (.openArray :: itemsTokens (item :: items)) := hitems.cons rfl fun rest => rfl
      exact hopen.close rfl (fun rest => rfl) level
  | object fields ih =>
    cases fields with
    | nil =>
      have hclose : FallsInto ['\x7d'] [.closeObject] := fallsInto_nil.cons rfl fun rest => rfl
      exact hclose.cons rfl fun rest => rfl
    | cons field fields =>
      have hfields := fallsInto_prettyFields fun f hf => ih f hf (level + 1)
      have hopen : FallsInto ('\x7b' :: prettyFields (level + 1) (field :: fields))
          (.openObject :: fieldsTokens (field :: fields)) := hfields.cons rfl fun rest => rfl
      exact hopen.close rfl (fun rest => rfl) level

/-! ### The machine reads the tokens of a value -/

theorem itemsData_eq_map (items : List Json) : itemsData items = items.map datum := by
  induction items with
  | nil => rfl
  | cons item items ih => rw [itemsData, ih, List.map_cons]

/-- No value starts with the bracket that closes an array. -/
theorem head?_tokens (v : Json) (rest : List Token) :
    (v.tokens ++ rest).head? ≠ some .closeArray := by
  cases v with
  | null | bool | string | array | object => simp [tokens]

theorem value?_openArray {tokens : List Token} (h : tokens.head? ≠ some .closeArray)
    (frames : List Frame) :
    value? frames (.openArray :: tokens) = value? (.items [] :: frames) tokens := by
  cases tokens with
  | nil => rfl
  | cons token tokens =>
    cases token with
    | closeArray => exact absurd rfl h
    | openArray | openObject | closeObject | comma | colon | scalar => rfl

/-- The machine goes over the tokens as over one value, whatever is open and whatever follows. -/
def Says (tokens : List Token) (datum : Datum) : Prop :=
  ∀ frames rest, value? frames (tokens ++ rest) = after? frames datum rest

/-- The tokens behind an item: nothing, or a comma and more items. -/
def laterItems : List Json → List Token
  | [] => []
  | item :: items => .comma :: itemsTokens (item :: items)

theorem itemsTokens_cons (item : Json) (items : List Json) :
    itemsTokens (item :: items) = item.tokens ++ laterItems items := by
  cases items with
  | nil => rw [itemsTokens, laterItems, List.append_nil]
  | cons next items => rfl

theorem after?_laterItems {items : List Json} (h : ∀ v ∈ items, Says v.tokens v.datum)
    (before : List Datum) (datum : Datum) (frames : List Frame) (rest : List Token) :
    after? (.items before :: frames) datum (laterItems items ++ .closeArray :: rest) =
      after? frames (.array (before ++ datum :: itemsData items)) rest := by
  induction items generalizing before datum with
  | nil => rw [laterItems, List.nil_append, after?, itemsData]
  | cons item items ih =>
    have hitem := h item List.mem_cons_self
    have hitems := ih fun v hv => h v (List.mem_cons_of_mem item hv)
    rw [laterItems, itemsTokens_cons, List.cons_append, List.append_assoc, after?, hitem, hitems,
      itemsData, List.append_assoc, List.singleton_append]

/-- The tokens behind a field: nothing, or a comma and more fields. -/
def laterFields : List (String × Json) → List Token
  | [] => []
  | field :: fields => .comma :: fieldsTokens (field :: fields)

theorem fieldsTokens_cons (key : String) (value : Json) (fields : List (String × Json)) :
    fieldsTokens ((key, value) :: fields) =
      .scalar (.string key) :: .colon :: (value.tokens ++ laterFields fields) := by
  cases fields with
  | nil => rw [fieldsTokens, laterFields, List.append_nil]
  | cons field fields => rfl

theorem after?_laterFields {fields : List (String × Json)}
    (h : ∀ field ∈ fields, Says field.2.tokens field.2.datum) (before : List (String × Datum))
    (key : String) (datum : Datum) (frames : List Frame) (rest : List Token) :
    after? (.fields before key :: frames) datum (laterFields fields ++ .closeObject :: rest) =
      after? frames (.object (before ++ (key, datum) :: fieldsData fields)) rest := by
  induction fields generalizing before key datum with
  | nil => rw [laterFields, List.nil_append, after?, fieldsData]
  | cons field fields ih =>
    obtain ⟨next, value⟩ := field
    have hvalue : Says value.tokens value.datum := h (next, value) List.mem_cons_self
    have hfields := ih fun f hf => h f (List.mem_cons_of_mem _ hf)
    rw [laterFields, fieldsTokens_cons, List.cons_append, List.cons_append, List.cons_append,
      List.append_assoc, after?, hvalue, hfields, fieldsData, List.append_assoc,
      List.singleton_append]

/-- **The machine goes over the tokens of a value as over one value.** -/
theorem says_tokens (v : Json) : Says v.tokens v.datum := by
  induction v using induct with
  | null => exact fun frames rest => rfl
  | bool value => exact fun frames rest => rfl
  | string text => exact fun frames rest => rfl
  | array items ih =>
    intro frames rest
    cases items with
    | nil => rfl
    | cons item items =>
      have hitem := ih item List.mem_cons_self
      have hitems := after?_laterItems fun v hv => ih v (List.mem_cons_of_mem item hv)
      rw [tokens, itemsTokens_cons, List.cons_append, List.cons_append, List.append_assoc,
        List.append_assoc, value?_openArray (head?_tokens item _), hitem, List.singleton_append,
        hitems, datum, itemsData, List.nil_append]
  | object fields ih =>
    intro frames rest
    cases fields with
    | nil => rfl
    | cons field fields =>
      obtain ⟨key, value⟩ := field
      have hvalue : Says value.tokens value.datum := ih (key, value) List.mem_cons_self
      have hfields := after?_laterFields fun f hf => ih f (List.mem_cons_of_mem _ hf)
      rw [tokens, fieldsTokens_cons, List.cons_append, List.cons_append, List.cons_append,
        List.cons_append, List.append_assoc, List.cons_append, List.append_assoc, value?, hvalue,
        List.singleton_append, hfields, datum, fieldsData, List.nil_append]

/-- **A value that is written over lines is read back.** -/
theorem read?_pretty (v : Json) : read? v.pretty = some v.datum := by
  have htokens := fallsInto_prettyChars v 0 []
  have hvalue := says_tokens v [] []
  have hend : tokens? [] = some [] := by rw [tokens?]; rfl
  rw [List.append_nil, hend, Option.map_some, List.append_nil] at htokens
  rw [List.append_nil, after?] at hvalue
  rw [read?, pretty, String.toList_ofList, htokens, Option.bind_some, hvalue]

end Json

/-! ### Blocks -/

open Json (Datum read?)

/-- A modifier as the reader of an export finds it. -/
def Modifier.exported (m : Modifier) : Datum :=
  .object [("selector", .string m.selector), ("description", .string m.description),
    ("markup_class", .string m.markupClass)]

/-- A block as the reader of an export finds it. -/
def Block.exported (b : Block) : Datum :=
  .object [("name", .string b.name), ("description", .string b.description),
    ("modifiers", .array (b.modifiers.map Modifier.exported)), ("example", .string b.markup),
    ("section", .string b.sectionText), ("is_module", .bool b.isModule)]

theorem Modifier.exported_injective : Function.Injective Modifier.exported := by
  rintro ⟨selector, description⟩ ⟨selector', description'⟩ h
  simp only [exported, Datum.object.injEq, List.cons.injEq, Prod.mk.injEq, Datum.string.injEq,
    true_and] at h
  rw [h.1, h.2.1]

theorem Block.exported_injective : Function.Injective Block.exported := by
  rintro ⟨name, description, modifiers, markup, sectionText⟩
    ⟨name', description', modifiers', markup', sectionText'⟩ h
  simp only [exported, Datum.object.injEq, List.cons.injEq, Prod.mk.injEq, Datum.string.injEq,
    Datum.array.injEq, true_and] at h
  obtain ⟨rfl, rfl, hmodifiers, rfl, rfl, -⟩ := h
  rw [List.map_injective_iff.mpr Modifier.exported_injective hmodifiers]

theorem Block.datum_view (b : Block) : b.view.datum = b.exported := by
  have hmodifiers : Json.itemsData (b.modifiers.map Modifier.view) =
      b.modifiers.map Modifier.exported := by
    rw [Json.itemsData_eq_map, List.map_map]
    rfl
  simp only [view, exported, Json.datum, Json.fieldsData, hmodifiers]

theorem read?_exportBlocks (blocks : List Block) :
    read? (exportBlocks blocks) = some (.array (blocks.map Block.exported)) := by
  rw [exportBlocks, Json.read?_pretty, Json.datum, Json.itemsData_eq_map, List.map_map]
  congr 2
  exact List.map_congr_left fun b _ => b.datum_view

/-- **The export of blocks says what the blocks are.**  A reader finds one object for each block, in
order, with every text as it is in the block, and different blocks are never exported to the same
text. -/
theorem exportBlocks_faithful :
    (∀ blocks : List Block,
      read? (exportBlocks blocks) = some (.array (blocks.map Block.exported))) ∧
      Function.Injective exportBlocks := by
  refine ⟨read?_exportBlocks, fun blocks blocks' h => ?_⟩
  have hread := read?_exportBlocks blocks
  rw [h, read?_exportBlocks blocks', Option.some.injEq, Datum.array.injEq] at hread
  exact (List.map_injective_iff.mpr Block.exported_injective hread).symm

end LivingGuide
