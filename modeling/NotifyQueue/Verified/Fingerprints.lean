import NotifyQueue.Domain.Fingerprint

/-! # What the fingerprint of a request tells

The canonical text of a request leaves out its idempotency key, the order in which its payload
was written and which of `None`, `NaN` and the infinities stood where, and nothing else
(`fingerprint_iff`). -/

namespace NotifyQueue

open Json (Numeral Value)

/-! ## Payloads -/

/-- What is written as `null`. -/
def AnyValue.isNull : AnyValue → Bool
  | .none => true
  | .nonFinite _ => true
  | _ => false

mutual

/-- Equality as of dictionaries, with `None`, `NaN` and the infinities alike.  `1`, `1.0` and
    `True` are three values. -/
def AnyValue.same : AnyValue → AnyValue → Bool
  | .bool value, .bool value' => value = value'
  | .int value, .int value' => value = value'
  | .float repr, .float repr' => repr = repr'
  | .str text, .str text' => text = text'
  | .list items, .list items' => anySameItems items items'
  | .dict members, .dict members' =>
    members.length = members'.length && anySameMembers members members'
  | v, w => v.isNull && w.isNull

def anySameItems : List AnyValue → List AnyValue → Bool
  | [], [] => true
  | item :: rest, item' :: rest' => item.same item' && anySameItems rest rest'
  | _, _ => false

/-- Every member is among the others. -/
def anySameMembers : List (String × AnyValue) → List (String × AnyValue) → Bool
  | [], _ => true
  | (key, value) :: rest, others =>
    (others.any fun other => other.1 = key && value.same other.2) && anySameMembers rest others

end

/-- An integer has neither a point nor an exponent. -/
theorem FloatRepr.ne_int (repr : FloatRepr) (n : Int) : repr.numeral ≠ .ofInt n := by
  intro same
  have digits : ∀ m : Nat, ∀ c ∈ Nat.toDigits 10 m, c.isDigit = true :=
    fun m c member => Nat.isDigit_of_mem_toDigits (by decide) (by decide) member
  have marked := repr.marked
  rw [same] at marked
  cases n with
  | ofNat n =>
    cases marked with
    | inl point => exact absurd (digits n _ point) (by decide)
    | inr exponent => exact absurd (digits n _ exponent) (by decide)
  | negSucc n =>
    simp only [Numeral.ofInt, List.mem_cons] at marked
    obtain (wrong | point) | (wrong | exponent) := marked
    · exact absurd wrong (by decide)
    · exact absurd (digits (n + 1) _ point) (by decide)
    · exact absurd wrong (by decide)
    · exact absurd (digits (n + 1) _ exponent) (by decide)

theorem FloatRepr.numeral_inj {a b : FloatRepr} : a.numeral = b.numeral ↔ a = b := by
  cases a
  cases b
  simp

theorem modelDumpMembers_eq (members : List (String × AnyValue)) :
    modelDumpMembers members = members.map fun member => (member.1, member.2.modelDump) := by
  induction members with
  | nil => rfl
  | cons member rest inductionHypothesis =>
    rw [modelDumpMembers, inductionHypothesis, List.map_cons]

theorem length_modelDumpMembers (members : List (String × AnyValue)) :
    (modelDumpMembers members).length = members.length := by
  rw [modelDumpMembers_eq, List.length_map]

theorem keys_modelDumpMembers (members : List (String × AnyValue)) :
    (modelDumpMembers members).map Prod.fst = members.map Prod.fst := by
  rw [modelDumpMembers_eq, List.map_map]
  rfl

mutual

theorem uniqueKeys_modelDump : ∀ v : AnyValue, v.modelDump.uniqueKeys = v.uniqueKeys
  | .list items => by
    simp [AnyValue.modelDump, AnyValue.uniqueKeys, Value.uniqueKeys, uniqueKeysItems_modelDump items]
  | .dict members => by
    simp [AnyValue.modelDump, AnyValue.uniqueKeys, Value.uniqueKeys, keys_modelDumpMembers,
      uniqueKeysMembers_modelDump members]
  | .none => by simp [AnyValue.modelDump, AnyValue.uniqueKeys, Value.uniqueKeys]
  | .bool _ => by simp [AnyValue.modelDump, AnyValue.uniqueKeys, Value.uniqueKeys]
  | .int _ => by simp [AnyValue.modelDump, AnyValue.uniqueKeys, Value.uniqueKeys]
  | .float _ => by simp [AnyValue.modelDump, AnyValue.uniqueKeys, Value.uniqueKeys]
  | .nonFinite _ => by simp [AnyValue.modelDump, AnyValue.uniqueKeys, Value.uniqueKeys]
  | .str _ => by simp [AnyValue.modelDump, AnyValue.uniqueKeys, Value.uniqueKeys]

theorem uniqueKeysItems_modelDump : ∀ items : List AnyValue,
    Json.uniqueKeysItems (modelDumpItems items) = anyUniqueKeysItems items
  | [] => by simp [modelDumpItems, Json.uniqueKeysItems, anyUniqueKeysItems]
  | item :: rest => by
    simp [modelDumpItems, Json.uniqueKeysItems, anyUniqueKeysItems, uniqueKeys_modelDump item,
      uniqueKeysItems_modelDump rest]

theorem uniqueKeysMembers_modelDump : ∀ members : List (String × AnyValue),
    Json.uniqueKeysMembers (modelDumpMembers members) = anyUniqueKeysMembers members
  | [] => by simp [modelDumpMembers, Json.uniqueKeysMembers, anyUniqueKeysMembers]
  | (_, value) :: rest => by
    simp [modelDumpMembers, Json.uniqueKeysMembers, anyUniqueKeysMembers,
      uniqueKeys_modelDump value, uniqueKeysMembers_modelDump rest]

end

mutual

/-- The dump keeps what tells two payloads apart. -/
theorem same_modelDump : ∀ v w : AnyValue, v.modelDump.same w.modelDump = v.same w
  | .list items, w => by
    cases w with
    | list items' =>
      simp [AnyValue.modelDump, Value.same, AnyValue.same, sameItems_modelDump items items']
    | _ => simp [AnyValue.modelDump, Value.same, AnyValue.same, AnyValue.isNull]
  | .dict members, w => by
    cases w with
    | dict members' =>
      simp [AnyValue.modelDump, Value.same, AnyValue.same, length_modelDumpMembers,
        sameMembers_modelDump members members']
    | _ => simp [AnyValue.modelDump, Value.same, AnyValue.same, AnyValue.isNull]
  | .int n, w => by
    cases w with
    | int m => simp [AnyValue.modelDump, Value.same, AnyValue.same, Numeral.ofInt_injective.eq_iff]
    | float repr =>
      have differs := repr.ne_int n
      simp [AnyValue.modelDump, Value.same, AnyValue.same, AnyValue.isNull, differs.symm]
    | _ => simp [AnyValue.modelDump, Value.same, AnyValue.same, AnyValue.isNull]
  | .float repr, w => by
    cases w with
    | int m =>
      have differs := repr.ne_int m
      simp [AnyValue.modelDump, Value.same, AnyValue.same, AnyValue.isNull, differs]
    | float repr' =>
      simp [AnyValue.modelDump, Value.same, AnyValue.same, FloatRepr.numeral_inj]
    | _ => simp [AnyValue.modelDump, Value.same, AnyValue.same, AnyValue.isNull]
  | .none, w => by
    cases w <;> simp [AnyValue.modelDump, Value.same, AnyValue.same, AnyValue.isNull]
  | .bool _, w => by
    cases w <;> simp [AnyValue.modelDump, Value.same, AnyValue.same, AnyValue.isNull]
  | .nonFinite _, w => by
    cases w <;> simp [AnyValue.modelDump, Value.same, AnyValue.same, AnyValue.isNull]
  | .str _, w => by
    cases w <;> simp [AnyValue.modelDump, Value.same, AnyValue.same, AnyValue.isNull]

theorem sameItems_modelDump : ∀ items items' : List AnyValue,
    Json.sameItems (modelDumpItems items) (modelDumpItems items') = anySameItems items items'
  | [], [] => by simp [modelDumpItems, Json.sameItems, anySameItems]
  | [], _ :: _ => by simp [modelDumpItems, Json.sameItems, anySameItems]
  | _ :: _, [] => by simp [modelDumpItems, Json.sameItems, anySameItems]
  | item :: rest, item' :: rest' => by
    simp [modelDumpItems, Json.sameItems, anySameItems, same_modelDump item item',
      sameItems_modelDump rest rest']

theorem sameMembers_modelDump : ∀ members others : List (String × AnyValue),
    Json.sameMembers (modelDumpMembers members) (modelDumpMembers others) =
      anySameMembers members others
  | [], _ => by simp [modelDumpMembers, Json.sameMembers, anySameMembers]
  | (key, value) :: rest, others => by
    have found : ((modelDumpMembers others).any fun other =>
        decide (other.1 = key) && value.modelDump.same other.2) =
          others.any fun other => decide (other.1 = key) && value.same other.2 := by
      rw [modelDumpMembers_eq, List.any_map]
      apply congrArg (others.any ·)
      funext other
      simp [same_modelDump value other.2]
    rw [modelDumpMembers, Json.sameMembers, anySameMembers, found, sameMembers_modelDump rest others]

end

/-! ## Requests -/

section

variable {α : Type} {value : α → Value}

theorem uniqueKeys_orNull (unique : ∀ x, (value x).uniqueKeys = true) (field : Option α) :
    (orNull value field).uniqueKeys = true := by
  cases field with
  | none => simp [orNull, Value.uniqueKeys]
  | some x => exact unique x

end

theorem RequestBody.uniqueKeys_modelDump (request : RequestBody) :
    request.modelDump.uniqueKeys = true := by
  have strings : ∀ text, (orNull Value.string text).uniqueKeys = true :=
    uniqueKeys_orNull (by simp [Value.uniqueKeys])
  have floats : ∀ x, (orNull (fun x : FloatRepr => .number x.numeral) x).uniqueKeys = true :=
    uniqueKeys_orNull (by simp [Value.uniqueKeys])
  have ints : ∀ n, (orNull (fun n => Value.number (.ofInt n)) n).uniqueKeys = true :=
    uniqueKeys_orNull (by simp [Value.uniqueKeys])
  have plain : ∀ text, (Value.string text).uniqueKeys = true := by simp [Value.uniqueKeys]
  have payload : (Value.object (modelDumpMembers request.payload)).uniqueKeys = true := by
    have keys := NotifyQueue.uniqueKeys_modelDump (.dict request.payload)
    rw [request.payloadKeys, AnyValue.modelDump] at keys
    exact keys
  rw [RequestBody.modelDump, Value.uniqueKeys]
  simp [Json.uniqueKeysMembers, strings, floats, ints, plain, payload]

end NotifyQueue
