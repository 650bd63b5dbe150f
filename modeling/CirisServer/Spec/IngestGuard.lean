import Mathlib.Data.List.Nodup
import CirisServer.ForStd.Find
import CirisServer.ForStd.JsonString
import CirisServer.Native.IngestGuard
import CirisServer.Spec.TraceSeal

/-!
# The check before the parse

A batch is not parsed if its bytes spell neither the model nor an escape that could. Whatever a JSON
text is the text of, the values in it have texts that are parts of it, and a name without quotes,
backslashes and controls is written as its bytes or with a `u` escape: so the check passes over no
batch that the walk would refuse.

Key results:
- `JsonText.within`: the text of a value has a part for each value in it
- `batchHasMockLlmCall_iff`: which batches are refused
-/

namespace CirisServer.IngestGuard

open JsonString (Spells)

/-! ## JSON texts -/

/-- White space between the tokens. -/
def Gap (bytes : List UInt8) : Prop := ∀ b ∈ bytes, b ∈ utf8 " \t\n\r"

def quoted (raw : List UInt8) : List UInt8 := utf8 "\"" ++ raw ++ utf8 "\""

/-- The texts between brackets, with commas between them. -/
def bracketed (left right : String) (gap : List UInt8) (texts : List (List UInt8)) : List UInt8 :=
  utf8 left ++ (gap ++ (utf8 ",").intercalate texts) ++ utf8 right

/-- A member of an object as it is written. -/
structure Member where
  before : List UInt8
  raw : List UInt8
  after : List UInt8
  name : String
  text : List UInt8
  value : Json

def Member.written (m : Member) : List UInt8 :=
  m.before ++ quoted m.raw ++ m.after ++ utf8 ":" ++ m.text

structure Member.Named (m : Member) : Prop where
  before : Gap m.before
  after : Gap m.after
  spells : Spells m.raw m.name.toList

/-- The last value that is written under a name. -/
def lastWritten (members : List Member) (name : String) : Option Json :=
  (members.reverse.find? (·.name = name)).map (·.value)

/-- The bytes are a text of the value. Of members with one name the last one counts. Which number a
    token denotes is left open. -/
inductive JsonText : List UInt8 → Json → Prop where
  | null : JsonText (utf8 "null") .null
  | bool (b : Bool) : JsonText (utf8 (if b then "true" else "false")) (.bool b)
  | num {token : List UInt8} (n : JsonNumber) (hne : token ≠ [])
    (htoken : ∀ b ∈ token, b ∈ utf8 "0123456789+-.eE") : JsonText token (.num n)
  | str {raw : List UInt8} {s : String} (h : Spells raw s.toList) : JsonText (quoted raw) (.str s)
  | arr {gap : List UInt8} {items : List (List UInt8 × Json)} (hgap : Gap gap)
    (h : ∀ p ∈ items, JsonText p.1 p.2) :
    JsonText (bracketed "[" "]" gap (items.map (·.1))) (.arr (items.map (·.2)))
  | obj {gap : List UInt8} {members : List Member} {kept : List (String × Json)} (hgap : Gap gap)
    (hnamed : ∀ m ∈ members, m.Named) (h : ∀ m ∈ members, JsonText m.text m.value)
    (hkept : ∀ name value, (name, value) ∈ kept ↔ lastWritten members name = some value) :
    JsonText (bracketed "\x7b" "\x7d" gap (members.map (·.written))) (.obj kept)
  | padded {before text after : List UInt8} {v : Json} (hbefore : Gap before) (hafter : Gap after)
    (h : JsonText text v) : JsonText (before ++ text ++ after) v

/-- `serde_json::from_slice`: what it makes of a text is a value that the text is a text of. -/
structure SerdeJson where
  fromSlice : List UInt8 → Option Json
  sound : ∀ {bytes : List UInt8} {v : Json}, fromSlice bytes = some v → JsonText bytes v

/-! ## Parts of a text -/

theorem infix_intercalate {α : Type} (sep : List α) {l : List α} {ls : List (List α)} (h : l ∈ ls) :
    l <:+: sep.intercalate ls := by
  induction ls with
  | nil => cases h
  | cons first ls ih =>
    rcases eq_or_ne ls [] with rfl | hne
    · rw [List.mem_singleton] at h
      have hsingle : sep.intercalate [first] = l := List.intercalate_singleton.trans h.symm
      exact hsingle ▸ List.infix_refl l
    · rw [List.intercalate_cons_of_ne_nil hne]
      rcases List.mem_cons.mp h with rfl | hmem
      · exact (List.prefix_append _ _).isInfix.trans (List.prefix_append _ _).isInfix
      · exact (ih hmem).trans (List.suffix_append _ _).isInfix

theorem infix_bracketed {left right : String} {gap text : List UInt8} {texts : List (List UInt8)}
    (h : text ∈ texts) : text <:+: bracketed left right gap texts := by
  rw [bracketed, ← List.append_assoc]
  have hjoined := infix_intercalate (utf8 ",") h
  exact hjoined.trans ⟨utf8 left ++ gap, utf8 right, rfl⟩

theorem lastWritten_mem {members : List Member} {name : String} {value : Json}
    (h : lastWritten members name = some value) : ∃ m ∈ members, m.value = value := by
  obtain ⟨m, hm, hvalue⟩ := Option.map_eq_some_iff.mp h
  exact ⟨m, List.mem_reverse.mp (List.mem_of_find?_eq_some hm), hvalue⟩

/-- The text of a value has a part that is the text of a value within it. -/
theorem JsonText.within {bytes : List UInt8} {v w : Json} (h : JsonText bytes v)
    (hw : Json.Within w v) : ∃ part, part <:+: bytes ∧ JsonText part w := by
  induction h with
  | null =>
    cases hw
    exact ⟨_, List.infix_refl _, .null⟩
  | bool b =>
    cases hw
    exact ⟨_, List.infix_refl _, .bool b⟩
  | num n hne htoken =>
    cases hw
    exact ⟨_, List.infix_refl _, .num n hne htoken⟩
  | str hs =>
    cases hw
    exact ⟨_, List.infix_refl _, .str hs⟩
  | arr hgap hitems ih =>
    cases hw with
    | self => exact ⟨_, List.infix_refl _, .arr hgap hitems⟩
    | item hv hin =>
      -- the text of an item is a part of the text of its array
      obtain ⟨p, hp, rfl⟩ := List.mem_map.mp hv
      obtain ⟨part, hpart, htext⟩ := ih p hp hin
      exact ⟨part, hpart.trans (infix_bracketed (List.mem_map_of_mem hp)), htext⟩
  | obj hgap hnamed hmembers hkept ih =>
    cases hw with
    | self => exact ⟨_, List.infix_refl _, .obj hgap hnamed hmembers hkept⟩
    | member hm hin =>
      -- a member that is kept is one of those that are written
      obtain ⟨m, hmem, hvalue⟩ := lastWritten_mem ((hkept _ _).mp hm)
      obtain ⟨part, hpart, htext⟩ := ih m hmem (hvalue ▸ hin)
      have hwritten : m.text <:+: m.written := (List.suffix_append _ _).isInfix
      exact ⟨part, (hpart.trans hwritten).trans (infix_bracketed (List.mem_map_of_mem hmem)), htext⟩
  | padded hbefore hafter h ih =>
    obtain ⟨part, hpart, htext⟩ := ih hw
    exact ⟨part, hpart.trans ⟨_, _, rfl⟩, htext⟩

theorem JsonText.exists_spells {bytes : List UInt8} {s : String} (h : JsonText bytes (.str s)) :
    ∃ raw, raw <:+: bytes ∧ Spells raw s.toList := by
  generalize hv : Json.str s = v at h
  induction h with
  | str hs =>
    cases hv
    exact ⟨_, ⟨_, _, rfl⟩, hs⟩
  | padded _ _ _ ih =>
    obtain ⟨raw, hraw, hs⟩ := ih hv
    exact ⟨raw, hraw.trans ⟨_, _, rfl⟩, hs⟩
  | _ => cases hv

/-- A text that no letter after a backslash is needed for stands in the text of a value that it is
    in, or a `u` escape does. -/
theorem JsonText.infix_of_within {bytes : List UInt8} {v : Json} {s : String} (h : JsonText bytes v)
    (hs : Json.Within (.str s) v) (hplain : ∀ c ∈ s.toList, JsonString.Unlettered c) :
    utf8 s <:+: bytes ∨ JsonString.unicodeEscape <:+: bytes := by
  obtain ⟨part, hpart, htext⟩ := h.within hs
  obtain ⟨raw, hraw, hspells⟩ := htext.exists_spells
  rcases hspells.plain_or_unicode hplain with heq | hunicode
  · left
    rw [utf8_eq_flatMap, ← heq]
    exact hraw.trans hpart
  · exact Or.inr (hunicode.trans (hraw.trans hpart))

/-! ## The walk -/

theorem contains_iff {hay needle : List UInt8} : contains hay needle = true ↔ needle <:+: hay := by
  simp only [contains, windows, List.any_eq_true, List.mem_map, List.mem_range, beq_iff_eq]
  constructor
  · rintro ⟨w, ⟨i, -, rfl⟩, hw⟩
    rw [← hw]
    exact (List.take_prefix _ _).isInfix.trans (List.drop_suffix _ _).isInfix
  · rintro ⟨before, after, rfl⟩
    refine ⟨needle, ⟨before.length, ?_, ?_⟩, rfl⟩
    · simp only [List.length_append]
      omega
    · simp

/-- A call of the mock model. -/
structure MockCall (c : Json) : Prop where
  event : c.get? "event_type" = some (.str "LLM_CALL")
  model : ∃ data, c.get? "data" = some data ∧ data.get? "model" = some (.str "mock-model")

/-- A component of a trace of the batch. -/
def Component (batch c : Json) : Prop :=
  ∃ events, batch.get? "events" = some (.arr events) ∧ ∃ e ∈ events, ∃ trace components,
    e.get? "trace" = some trace ∧ trace.get? "components" = some (.arr components) ∧ c ∈ components

theorem asStr_eq_some_iff {j : Json} {s : String} : j.asStr = some s ↔ j = .str s := by
  cases j <;> simp [Json.asStr]

theorem asArray_eq_some_iff {j : Json} {items : List Json} :
    j.asArray = some items ↔ j = .arr items := by
  cases j <;> simp [Json.asArray]

theorem isMockLlmComponent_iff {c : Json} : isMockLlmComponent c = true ↔ MockCall c := by
  rw [isMockLlmComponent, Bool.and_eq_true, decide_eq_true_eq, decide_eq_true_eq]
  simp only [Option.bind_eq_some_iff, asStr_eq_some_iff, llmCallEvent, mockLlmModel]
  constructor
  · rintro ⟨⟨event, hevent, rfl⟩, model, ⟨data, hdata, hmodel⟩, rfl⟩
    exact ⟨hevent, data, hdata, hmodel⟩
  · rintro ⟨hevent, data, hdata, hmodel⟩
    exact ⟨⟨_, hevent, rfl⟩, _, ⟨data, hdata, hmodel⟩, rfl⟩

theorem componentsOf_eq_some_iff {e : Json} {components : List Json} :
    componentsOf e = some components ↔
      ∃ trace, e.get? "trace" = some trace ∧ trace.get? "components" = some (.arr components) := by
  simp only [componentsOf, Option.bind_eq_some_iff, asArray_eq_some_iff]
  constructor
  · rintro ⟨_, ⟨trace, htrace, hcomponents⟩, rfl⟩
    exact ⟨trace, htrace, hcomponents⟩
  · rintro ⟨trace, htrace, hcomponents⟩
    exact ⟨_, ⟨trace, htrace, hcomponents⟩, rfl⟩

/-- The walk finds the mock calls among the components, and looks at nothing else. -/
theorem hasMockLlmCall_iff {v : Json} :
    hasMockLlmCall v = true ↔ ∃ c, Component v c ∧ MockCall c := by
  rw [hasMockLlmCall]
  constructor
  · intro h
    cases hevents : (v.get? "events").bind Json.asArray with
    | none => simp [hevents] at h
    | some events =>
      simp only [hevents, List.any_eq_true, List.mem_flatten, List.mem_filterMap,
        isMockLlmComponent_iff] at h
      obtain ⟨c, ⟨components, ⟨e, he, hcomponents⟩, hc⟩, hmock⟩ := h
      obtain ⟨_, hget, harr⟩ := Option.bind_eq_some_iff.mp hevents
      rw [asArray_eq_some_iff] at harr
      subst harr
      obtain ⟨trace, htrace, harray⟩ := componentsOf_eq_some_iff.mp hcomponents
      exact ⟨c, ⟨events, hget, e, he, trace, components, htrace, harray, hc⟩, hmock⟩
  · rintro ⟨c, ⟨events, hget, e, he, trace, components, htrace, harray, hc⟩, hmock⟩
    have hcomponents := componentsOf_eq_some_iff.mpr ⟨trace, htrace, harray⟩
    simp only [hget, Option.bind_some, Json.asArray, List.any_eq_true, List.mem_flatten,
      List.mem_filterMap, isMockLlmComponent_iff]
    exact ⟨c, ⟨components, ⟨e, he, hcomponents⟩, hc⟩, hmock⟩

theorem within_of_get? {v w x : Json} {name : String} (h : v.get? name = some w)
    (hx : Json.Within x w) : Json.Within x v := by
  cases v with
  | obj members => exact .member (Members.mem_of_lookup h) hx
  | _ => cases h

/-- The name of the model is within a batch that holds a call of it. -/
theorem within_of_mockCall {v c : Json} (h : Component v c) (hmock : MockCall c) :
    Json.Within (.str mockLlmModel) v := by
  obtain ⟨events, hget, e, he, trace, components, htrace, harray, hc⟩ := h
  obtain ⟨data, hdata, hmodel⟩ := hmock.model
  have hcomponent : Json.Within (.str mockLlmModel) c :=
    within_of_get? hdata (within_of_get? hmodel .self)
  have hevent : Json.Within (.str mockLlmModel) e :=
    within_of_get? htrace (within_of_get? harray (.item hc hcomponent))
  exact within_of_get? hget (.item he hevent)

/-- **The guard.** A batch is refused exactly if it parses and holds a mock call among its
    components. -/
theorem batchHasMockLlmCall_iff (serde : SerdeJson) (body : List UInt8) :
    batchHasMockLlmCall serde.fromSlice body = true ↔
      ∃ v, serde.fromSlice body = some v ∧ ∃ c, Component v c ∧ MockCall c := by
  constructor
  · intro h
    rw [batchHasMockLlmCall] at h
    split at h
    · cases h
    · cases hparse : serde.fromSlice body with
      | none => simp [hparse] at h
      | some v =>
        rw [hparse] at h
        exact ⟨v, rfl, hasMockLlmCall_iff.mp h⟩
  · rintro ⟨v, hparse, c, hc, hmock⟩
    -- the name is in the bytes, or an escape is: the batch is parsed
    have hunlettered : mockLlmModel.toList.all (decide <| JsonString.Unlettered ·) = true := by
      decide
    have hspelled := (serde.sound hparse).infix_of_within (within_of_mockCall hc hmock)
      fun c hmem => of_decide_eq_true (List.all_eq_true.mp hunlettered c hmem)
    rw [batchHasMockLlmCall, if_neg]
    · rw [hparse]
      exact hasMockLlmCall_iff.mpr ⟨c, hc, hmock⟩
    · have hescape : utf8 "\\u" = JsonString.unicodeEscape := by decide
      rw [← contains_iff, ← contains_iff, ← hescape] at hspelled
      rcases hspelled with h | h <;> simp [h]

/-! ## A call in disguise -/

/-- A member without white space, under a plain name. -/
def Member.plain (name : String) (text : List UInt8) (value : Json) : Member :=
  ⟨[], utf8 name, [], name, text, value⟩

/-- A text without controls, quotes and backslashes is written as its bytes. -/
theorem spells_utf8 {s : String} (hs : s.toList.all JsonString.isPlain = true) :
    Spells (utf8 s) s.toList := by
  rw [utf8_eq_flatMap]
  exact Spells.plain hs

theorem Member.plain_named {name : String} (text : List UInt8) (value : Json)
    (hname : name.toList.all JsonString.isPlain = true) :
    (Member.plain name text value).Named where
  before := by simp [Gap, plain]
  after := by simp [Gap, plain]
  spells := spells_utf8 hname

/-- Of members with different names every one is kept. -/
theorem JsonText.record (members : List Member) (hnamed : ∀ m ∈ members, m.Named)
    (h : ∀ m ∈ members, JsonText m.text m.value) (hnodup : (members.map (·.name)).Nodup) :
    JsonText (bracketed "\x7b" "\x7d" [] (members.map (·.written)))
      (.obj (members.map fun m => (m.name, m.value))) := by
  refine .obj (by simp [Gap]) hnamed h fun name value => ?_
  simp only [List.mem_map, Prod.mk.injEq, lastWritten, Option.map_eq_some_iff]
  constructor
  · rintro ⟨m, hm, rfl, rfl⟩
    obtain ⟨m', hm'⟩ : ∃ m', members.reverse.find? (·.name = m.name) = some m' := by
      rw [← Option.isSome_iff_exists, List.find?_isSome]
      exact ⟨m, List.mem_reverse.mpr hm, by simp⟩
    have hmem := List.mem_reverse.mp (List.mem_of_find?_eq_some hm')
    have hname : m'.name = m.name := by simpa using List.find?_some hm'
    rw [List.inj_on_of_nodup_map hnodup hmem hm hname] at hm'
    exact ⟨m, hm', rfl⟩
  · rintro ⟨m, hm, rfl⟩
    have hname : m.name = name := by simpa using List.find?_some hm
    exact ⟨m, List.mem_reverse.mp (List.mem_of_find?_eq_some hm), hname, rfl⟩

theorem JsonText.single {text : List UInt8} {v : Json} (h : JsonText text v) :
    JsonText (bracketed "[" "]" [] [text]) (.arr [v]) := by
  have hitems : ∀ item ∈ [(text, v)], JsonText item.1 item.2 := by simpa using h
  exact .arr (by simp [Gap]) hitems

theorem JsonText.field (name : String) {text : List UInt8} {v : Json}
    (hname : name.toList.all JsonString.isPlain = true) (h : JsonText text v) :
    JsonText (bracketed "\x7b" "\x7d" [] [(Member.plain name text v).written]) (.obj [(name, v)]) := by
  have hnamed : ∀ m ∈ [Member.plain name text v], m.Named :=
    List.forall_mem_singleton.mpr (Member.plain_named text v hname)
  exact record _ hnamed (List.forall_mem_singleton.mpr h) (by simp)

/-- A batch with a call whose model's name has its hyphen escaped. -/
def escapedCall : List UInt8 :=
  utf8 ("\x7b\"events\":[\x7b\"trace\":\x7b\"components\":[\x7b\"event_type\":\"LLM_CALL\"," ++
    "\"data\":\x7b\"model\":\"mock\\u002dmodel\"\x7d\x7d]\x7d\x7d]\x7d")

def escapedComponent : Json :=
  .obj [("event_type", .str "LLM_CALL"), ("data", .obj [("model", .str "mock-model")])]

def escapedBatch : Json :=
  .obj [("events", .arr [.obj [("trace", .obj [("components", .arr [escapedComponent])])]])]

theorem spells_escaped : Spells (utf8 "mock\\u002dmodel") "mock-model".toList := by
  have hhyphen : JsonString.Piece (utf8 "\\u002d") '-' := .unicode (by decide)
  have hmock : Spells (utf8 "mock") "mock".toList := spells_utf8 (by decide)
  have hmodel : Spells (utf8 "model") "model".toList := spells_utf8 (by decide)
  exact hmock.append (.cons hhyphen hmodel)

theorem jsonText_escapedCall : JsonText escapedCall escapedBatch := by
  have hcall : JsonText (quoted (utf8 "LLM_CALL")) (.str "LLM_CALL") :=
    .str (spells_utf8 (by decide))
  have hmodel : JsonText (quoted (utf8 "mock\\u002dmodel")) (.str "mock-model") :=
    .str spells_escaped
  have hdata := JsonText.field "model" (by decide) hmodel
  have hcomponent := JsonText.record
    [.plain "event_type" _ (.str "LLM_CALL"),
      .plain "data" _ (.obj [("model", .str "mock-model")])]
    (List.forall_mem_cons.mpr ⟨Member.plain_named _ _ (by decide),
      List.forall_mem_singleton.mpr (Member.plain_named _ _ (by decide))⟩)
    (List.forall_mem_cons.mpr ⟨hcall, List.forall_mem_singleton.mpr hdata⟩) (by simp [Member.plain])
  have hbatch : ∃ text, JsonText text escapedBatch ∧ text = escapedCall :=
    ⟨_, JsonText.field "events" (by decide) (JsonText.single
      (JsonText.field "trace" (by decide)
        (JsonText.field "components" (by decide) hcomponent.single))), by decide +kernel⟩
  obtain ⟨text, htext, rfl⟩ := hbatch
  exact htext

/-- A parser that knows this one text. -/
def escapedSerde : SerdeJson where
  fromSlice bytes := if bytes = escapedCall then some escapedBatch else none
  sound := by
    intro bytes v h
    obtain ⟨rfl, rfl⟩ : bytes = escapedCall ∧ escapedBatch = v := by simpa using h
    exact jsonText_escapedCall

theorem batchHasMockLlmCall_escaped :
    batchHasMockLlmCall escapedSerde.fromSlice escapedCall = true := by
  rw [batchHasMockLlmCall_iff]
  refine ⟨escapedBatch, by simp [escapedSerde], escapedComponent, ?_, rfl, _, rfl, rfl⟩
  exact ⟨_, rfl, _, List.mem_singleton_self _, _, _, rfl, rfl, List.mem_singleton_self _⟩

end CirisServer.IngestGuard
