import SinglePass.Config
import SinglePass.Proofs.IntegerText
import SinglePass.Proofs.JsonText
import SinglePass.Proofs.Printable

/-!
# Values, tokens and configurations through JSON

What is written as JSON is read back, if no doubles are involved (`Value.parseJson?_json`, `Token.parseJson?_json`,
`Config.parseJson_json`).  Their documents are well-formed, so the texts are read as these documents, and it remains to
decode a document.  Each array of a value takes two levels of its document, one for its items and one for the object
around them.
-/

namespace SinglePass

/-! ### Integers -/

theorem Decimal.eq_zero_of_digits {n : Nat} {ds : List Char} (h : digits n = '0' :: ds) : n = 0 := by
  induction n using Nat.strongRecOn generalizing ds with
  | ind n ih =>
    rw [digits] at h
    by_cases hlt : n < 10
    · rw [Nat.toDigits_of_lt_base hlt, List.cons.injEq] at h
      have hzero : ∀ n < 10, n.digitChar = '0' → n = 0 := by decide
      exact hzero n hlt h.1
    · -- the first digit is that of the tenth part, which is not zero
      rw [Nat.toDigits_of_base_le (by norm_num) (by omega)] at h
      obtain ⟨d, ds', hds⟩ := List.exists_cons_of_ne_nil (digits_ne_nil (n / 10))
      rw [← digits, hds, List.cons_append, List.cons.injEq] at h
      have htenth : n / 10 = 0 := ih (n / 10) (by omega) (h.1 ▸ hds)
      omega

namespace Json

theorem Number.wellFormed_ofInt (n : Int) : (Number.ofInt n).WellFormed where
  whole_ne_nil := Decimal.digits_ne_nil n.natAbs
  whole_isDigit _ hc := Decimal.isDigit_of_mem_digits hc
  whole_zero ds hds := by
    have hzero : n.natAbs = 0 := Decimal.eq_zero_of_digits hds
    rw [ofInt, hzero] at hds
    exact (List.cons.inj hds).2.symm
  fraction_isDigit := by simp [ofInt]
  exponent_ne_nil := by simp [ofInt]
  exponent_isDigit := by simp [ofInt]

theorem Number.int?_ofInt (n : Int) : (Number.ofInt n).int? = some n := by
  simp only [int?, ofInt, Decimal.digitsValue_digits]
  rw [if_neg (by simp; omega)]
  congr 1
  split_ifs with hsign
  · have hneg : n < 0 := of_decide_eq_true hsign
    omega
  · have hnonneg : ¬n < 0 := fun hneg => hsign (decide_eq_true hneg)
    omega

theorem uint64?_ofInt {n : Nat} (h : n < 2 ^ 64) : uint64? (.number (.ofInt n)) = some (UInt64.ofNat n) := by
  simp only [uint64?, Number.int?_ofInt]
  exact if_pos h

end Json

/-! ### Values -/

theorem Kind.ofTag?_tag (k : Kind) : ofTag? k.tag = some k := by cases k <;> decide

theorem Token.Kind.ofTag?_tag (k : Token.Kind) : ofTag? k.tag = some k := by cases k <;> decide

namespace Value

/-- No double occurs in the value. -/
inductive FloatFree : Value → Prop
  | int (n : Int64) : FloatFree (.int n)
  | str (s : String) : FloatFree (.str s)
  | bool (b : Bool) : FloatFree (.bool b)
  | array {items : List Value} : (∀ v ∈ items, FloatFree v) → FloatFree (.array items)

theorem toJsonItems_eq_map (vs : List Value) : toJsonItems vs = vs.map toJson := by
  induction vs with
  | nil => rfl
  | cons v vs ih => rw [toJsonItems, ih, List.map_cons]

theorem mapM_toJson {decode? : Json → Option Value} {vs : List Value} (h : ∀ v ∈ vs, decode? v.toJson = some v) :
    (vs.map toJson).mapM decode? = some vs := by
  induction vs with
  | nil => rfl
  | cons v vs ih =>
    obtain ⟨hv, hvs⟩ := List.forall_mem_cons.1 h
    rw [List.map_cons, List.mapM_cons, hv, ih hvs]
    rfl

theorem wellFormed_entry (k : Kind) {content : Json} (h : content.WellFormed) :
    (toJson.entry k content).WellFormed := by
  refine .object ?_
  simp [h, Json.WellFormed.string]

/-- The kind and the content are found in an object of the two, whatever the room. -/
theorem entry?_entry (room : Nat) (loose : Bool) (k : Kind) (content : Json) :
    entry? room loose (toJson.entry k content) = some (k, content, loose) := by
  simp [toJson.entry, entry?, Json.only, Json.name?, Kind.ofTag?_tag]

theorem ofJsonWithin?_entry (k : Kind) (hk : k ≠ .array) {room : Nat} (hroom : 0 < room) (loose : Bool)
    (content : Json) : ofJsonWithin? room loose (toJson.entry k content) = scalar? k content := by
  match room with
  | 1 => simp [ofJsonWithin?, entry?_entry]
  | inner + 2 => simp [ofJsonWithin?, entry?_entry, hk]

namespace FloatFree

variable {v : Value}

theorem wellFormed_toJson (h : v.FloatFree) : v.toJson.WellFormed := by
  induction h with
  | int n => exact wellFormed_entry .int (.number (Json.Number.wellFormed_ofInt n.toInt))
  | str s => exact wellFormed_entry .str (.string s)
  | bool b => exact wellFormed_entry .bool (.bool b)
  | array _ ih =>
    refine wellFormed_entry .array (.array ?_)
    rw [toJsonItems_eq_map]
    exact List.forall_mem_map.2 ih

/-- A value is decoded from its document if there is room for two levels for each of its arrays. -/
theorem ofJsonWithin?_toJson (h : v.FloatFree) (loose : Bool) {room : Nat} (hroom : 2 * v.nesting < room) :
    ofJsonWithin? room loose v.toJson = some v := by
  induction h generalizing loose room with
  | int n =>
    rw [toJson, ofJsonWithin?_entry .int (by decide) (Nat.zero_lt_of_lt hroom), scalar?, Json.Number.int?_ofInt,
      Option.bind_some, int64?_toInt, Option.map_some]
  | str s => rw [toJson, ofJsonWithin?_entry .str (by decide) (Nat.zero_lt_of_lt hroom), scalar?]
  | bool b => rw [toJson, ofJsonWithin?_entry .bool (by decide) (Nat.zero_lt_of_lt hroom), scalar?]
  | @array items _ ih =>
    rw [nesting] at hroom
    obtain ⟨room, rfl⟩ : ∃ inner, room = inner + 2 := ⟨room - 2, by omega⟩
    have hitems : (items.map toJson).mapM (ofJsonWithin? room loose) = some items := by
      refine mapM_toJson fun v hv => ih v hv loose ?_
      have hle : v.nesting ≤ nestingAll items := nestingAll_le_iff.1 le_rfl v hv
      omega
    simp [toJson, ofJsonWithin?, entry?_entry, toJsonItems_eq_map, hitems]

end FloatFree

/-- A value without doubles is read back from its JSON text. -/
theorem parseJson?_json {v : Value} (h : v.FloatFree) (hnesting : 2 * v.nesting < Json.maxNesting) :
    parseJson? v.json = some v := by
  rw [parseJson?, json, h.wellFormed_toJson.parse?_text]
  exact h.ofJsonWithin?_toJson false hnesting

end Value

/-! ### Tokens and configurations -/

theorem Token.wellFormed_toJson (t : Token) : t.toJson.WellFormed := by
  refine .object ?_
  simp [Json.WellFormed.string, Json.WellFormed.number (Json.Number.wellFormed_ofInt t.offset)]

/-- A token is read back from its JSON text. -/
theorem Token.parseJson?_json {t : Token} (h : t.offset < 2 ^ 64) : parseJson? t.json = some t := by
  have hoffset : (UInt64.ofNat t.offset).toNat = t.offset := UInt64.toNat_ofNat_of_lt' h
  rw [parseJson?, json, t.wellFormed_toJson.parse?_text]
  simp [ofJson?, toJson, Json.only, ofParts?, Json.name?, Token.Kind.ofTag?_tag, Json.string?, Json.uint64?_ofInt h,
    hoffset]

theorem Config.wellFormed_toJson (c : Config) : c.toJson.WellFormed := by
  refine .object ?_
  simp [Json.WellFormed.number (Json.Number.wellFormed_ofInt c.limit.toNat)]

/-- A configuration is read back from its JSON text. -/
theorem Config.parseJson_json (c : Config) (complaint : String → String) : parseJson complaint c.json = .ok c := by
  have htext : ofText? c.json = some c := by
    rw [ofText?, json, c.wellFormed_toJson.parse?_text]
    simp [ofJson?, toJson, Json.uint64?_ofInt c.limit.toNat_lt]
  rw [parseJson, htext]

/-- Values without doubles whose arrays are nested at most 60 deep, tokens and configurations are written as texts of
their documents, and are read back from these texts. -/
theorem json_roundTrip :
    (∀ v : Value, v.FloatFree → v.nesting ≤ 60 →
      Json.parse? v.json = some v.toJson ∧ Value.parseJson? v.json = some v) ∧
    (∀ t : Token, t.offset < 2 ^ 64 → Json.parse? t.json = some t.toJson ∧ Token.parseJson? t.json = some t) ∧
    ∀ c : Config, Json.parse? c.json = some c.toJson ∧ ∀ complaint, Config.parseJson complaint c.json = .ok c := by
  refine ⟨?_, ?_, ?_⟩
  · intro v hv hnesting
    have hroom : 2 * v.nesting < Json.maxNesting := by
      rw [Json.maxNesting]
      omega
    exact ⟨hv.wellFormed_toJson.parse?_text, Value.parseJson?_json hv hroom⟩
  · intro t ht
    exact ⟨t.wellFormed_toJson.parse?_text, Token.parseJson?_json ht⟩
  · intro c
    exact ⟨c.wellFormed_toJson.parse?_text, c.parseJson_json⟩

/-- The least integer, the greatest numbers of 64 bits, an empty array, and everything in a string that needs care. -/
theorem json_roundTrip_escapes :
    let v : Value := .array [.str "\"\\\n\x01\x7f😀", .int Int64.minValue, .array [.array [], .bool true]]
    let t : Token := ⟨.string, "\"\\\"", 2 ^ 64 - 1⟩
    let c : Config := ⟨UInt64.ofNat (2 ^ 64 - 1)⟩
    v.FloatFree ∧ v.nesting ≤ 60 ∧ t.offset < 2 ^ 64 ∧
      Value.parseJson? v.json = some v ∧ Token.parseJson? t.json = some t ∧
      ∀ complaint, Config.parseJson complaint c.json = .ok c := by
  intro v t c
  have hv : v.FloatFree := by
    refine .array ?_
    simp [Value.FloatFree.str, Value.FloatFree.int, Value.FloatFree.bool, Value.FloatFree.array]
  have hnesting : v.nesting ≤ 60 := by decide
  have ht : t.offset < 2 ^ 64 := by decide
  obtain ⟨hvalues, htokens, hconfigs⟩ := json_roundTrip
  exact ⟨hv, hnesting, ht, (hvalues v hv hnesting).2, (htokens t ht).2, (hconfigs c).2⟩

end SinglePass
