import SceneLink.Expression.Basic
import SceneLink.Proofs.Double.Whole
import SceneLink.Proofs.Operation.Minimal
import SceneLink.Proofs.Outcome

namespace SceneLink

section Numbers

namespace Json

theorem isFinite_of_double? {json : Json} {x : Double} (h : json.double? = some x) : x.isFinite = true := by
  cases json with
  | num n =>
      cases h
      exact n.isFinite_toDouble
  | _ => cases h

theorem lt_of_nat? {json : Json} {n : Nat} (h : json.nat? = some n) : n < 2 ^ 64 := by
  unfold nat? at h
  split at h
  · split at h
    · cases h
      omega
    · cases h
  · cases h

private theorem nat?_ofNat {n : Nat} (h : n < 2 ^ 64) : (ofNat n).isNull = false ∧ (ofNat n).nat? = some n := by
  have hword : -2 ^ 63 ≤ (n : Int) ∧ (n : Int) < 2 ^ 64 := by omega
  have hnumber : Number.ofInt? n = some (.int n hword.1 hword.2) := dif_pos hword
  unfold ofNat ofInt
  rw [hnumber]
  exact ⟨rfl, by simp [nat?]⟩

end Json

theorem Json.Fields.of_optional {α : Type} {fields : Json.Fields} {name : String} {read : Json → Option α}
    {a : Option α} (h : fields.optional name read = some a) {b : α} (hb : b ∈ a) :
    ∃ value, read value = some b := by
  unfold Json.Fields.optional at h
  split at h
  · cases h
    cases hb
  · cases h
    cases hb
  · obtain ⟨c, hc, rfl⟩ := Option.map_eq_some_iff.1 h
    cases hb
    exact ⟨_, hc⟩

end Numbers

namespace Constraint

-- A constraint whose numbers can be written: its bounds are finite, and the others have their
-- sizes.
def Formed : Constraint → Prop
  | clamp min max => (∀ x ∈ min, x.isFinite = true) ∧ ∀ x ∈ max, x.isFinite = true
  | round digits => ∀ n ∈ digits, n < 2 ^ 32
  | maxLength length => length < 2 ^ 64
  | format _ => True

def slots : Constraint → List (String × Option Json)
  | clamp min max => [("type", some (.str "clamp")), ("min", min.map Json.ofFloat), ("max", max.map Json.ofFloat)]
  | round digits => [("type", some (.str "round")), ("digits", digits.map Json.ofNat)]
  | maxLength length => [("type", some (.str "maxLength")), ("length", some (Json.ofNat length))]
  | format template => [("type", some (.str "format")), ("template", some (.str template))]

theorem toJson_slots (c : Constraint) : c.toJson = Json.ofFields (Json.written c.slots) := by
  cases c <;> simp [toJson, slots, Json.written, Json.present]

private theorem nodup_slots (c : Constraint) : (c.slots.map Prod.fst).Nodup := by
  cases c <;> simp [slots]

private theorem ofJson?_slots {c : Constraint} (tag : String) (htag : Json.fieldsOf c.slots "type" = some (.str tag)) :
    ofJson? c.toJson = ofFields? tag (Json.ofFields (Json.written c.slots)) := by
  have hget := Json.get?_written c.nodup_slots "type"
  rw [toJson_slots]
  unfold ofJson? Json.ofFields
  dsimp only
  rw [hget, show (Dict.get? c.slots "type").join = _ from htag]
  rfl

private theorem record?_slots (c : Constraint) (names : List String) :
    (Json.ofFields (Json.written c.slots)).record? names = some (Json.fieldsOf c.slots) :=
  Json.record?_written names c.slots c.nodup_slots

private theorem reads_clamp {min max : Option Double} (hmin : ∀ x ∈ min, x.isFinite = true)
    (hmax : ∀ x ∈ max, x.isFinite = true) : ofJson? (clamp min max).toJson = some (clamp min max) := by
  have hbound {bound : Option Double} (hbound : ∀ x ∈ bound, x.isFinite = true) (x : Double) (hx : x ∈ bound) :
      (Json.ofFloat x).isNull = false ∧ (Json.ofFloat x).double? = some x := by
    have hfinite := hbound x hx
    cases x with
    | finite x => exact ⟨rfl, rfl⟩
    | _ => cases hfinite
  have hlow : (Json.fieldsOf (clamp min max).slots).optional "min" Json.double? = some min :=
    Json.Fields.optional_eq Json.ofFloat rfl (hbound hmin)
  have hhigh : (Json.fieldsOf (clamp min max).slots).optional "max" Json.double? = some max :=
    Json.Fields.optional_eq Json.ofFloat rfl (hbound hmax)
  rw [ofJson?_slots "clamp" rfl]
  simp only [ofFields?, record?_slots, hlow, hhigh, Option.bind_eq_bind, Option.bind_some]
  rfl

private theorem reads_round {digits : Option Nat} (h : ∀ n ∈ digits, n < 2 ^ 32) :
    ofJson? (round digits).toJson = some (round digits) := by
  have hdigits : (Json.fieldsOf (round digits).slots).optional "digits" digits? = some digits := by
    refine Json.Fields.optional_eq Json.ofNat rfl fun n hn => ?_
    obtain ⟨hnull, hnat⟩ := Json.nat?_ofNat (Nat.lt_trans (h n hn) (by decide))
    refine ⟨hnull, ?_⟩
    unfold digits?
    rw [hnat, Option.filter_some, if_pos (by simpa using h n hn)]
  rw [ofJson?_slots "round" rfl]
  simp only [ofFields?, record?_slots, hdigits, Option.bind_eq_bind, Option.bind_some]
  rfl

private theorem reads_maxLength {length : Nat} (h : length < 2 ^ 64) :
    ofJson? (maxLength length).toJson = some (maxLength length) := by
  have hlength : (Json.fieldsOf (maxLength length).slots).required "length" Json.nat? = some length :=
    Json.Fields.required_eq rfl (Json.nat?_ofNat h).2
  rw [ofJson?_slots "maxLength" rfl]
  simp only [ofFields?, record?_slots]
  rw [Option.bind_eq_bind, Option.bind_some, hlength]
  rfl

private theorem reads_format (template : String) : ofJson? (format template).toJson = some (format template) := by
  have htemplate : (Json.fieldsOf (format template).slots).required "template" Json.str? = some template :=
    Json.Fields.required_eq rfl rfl
  rw [ofJson?_slots "format" rfl]
  simp only [ofFields?, record?_slots, htemplate, Option.bind_eq_bind, Option.bind_some]
  rfl

theorem reads {c : Constraint} (h : c.Formed) : ofJson? c.toJson = some c := by
  cases c with
  | clamp min max => exact reads_clamp h.1 h.2
  | round digits => exact reads_round h
  | maxLength length => exact reads_maxLength h
  | format template => exact reads_format template

theorem formed_of_ofFields? {tag : String} {body : Json} {c : Constraint} (h : ofFields? tag body = some c) :
    c.Formed := by
  unfold ofFields? at h
  split at h
  · obtain ⟨fields, -, h⟩ := Option.bind_eq_some_iff.1 h
    obtain ⟨min, hmin, h⟩ := Option.bind_eq_some_iff.1 h
    obtain ⟨max, hmax, h⟩ := Option.bind_eq_some_iff.1 h
    cases h
    have hfinite {name : String} {bound : Option Double} (hbound : fields.optional name Json.double? = some bound) :
        ∀ x ∈ bound, x.isFinite = true := fun x hx =>
      have ⟨_, hread⟩ := Json.Fields.of_optional hbound hx
      Json.isFinite_of_double? hread
    exact ⟨hfinite hmin, hfinite hmax⟩
  · obtain ⟨fields, -, h⟩ := Option.bind_eq_some_iff.1 h
    obtain ⟨digits, hdigits, h⟩ := Option.bind_eq_some_iff.1 h
    cases h
    intro n hn
    obtain ⟨value, hread⟩ := Json.Fields.of_optional hdigits hn
    simpa using (Option.filter_eq_some_iff.1 hread).2
  · obtain ⟨fields, -, h⟩ := Option.bind_eq_some_iff.1 h
    obtain ⟨length, hlength, h⟩ := Option.bind_eq_some_iff.1 h
    cases h
    obtain ⟨value, -, hread⟩ := Option.bind_eq_some_iff.1 hlength
    exact Json.lt_of_nat? hread
  · obtain ⟨fields, -, h⟩ := Option.bind_eq_some_iff.1 h
    obtain ⟨template, -, h⟩ := Option.bind_eq_some_iff.1 h
    cases h
    trivial
  · cases h

theorem formed_of_ofJson? {json : Json} {c : Constraint} (h : ofJson? json = some c) : c.Formed := by
  unfold ofJson? at h
  split at h
  · obtain ⟨_, -, h⟩ := Option.bind_eq_some_iff.1 h
    obtain ⟨_, -, h⟩ := Option.bind_eq_some_iff.1 h
    exact formed_of_ofFields? h
  · exact formed_of_ofFields? h
  · cases h

end Constraint

namespace Change

-- A change that can be written: its operation is known, and so are the sizes of its numbers.
structure Formed (c : Change) : Prop where
  known : (Operator.ofName? c.op).isSome = true
  constraints : ∀ k ∈ c.constraints, k.Formed

def slots (c : Change) : List (String × Option Json) :=
  [("op", some (.str c.op)), ("value", if c.value.isNull then none else some c.value),
    ("constraints", if c.constraints = [] then none else some (.arr (c.constraints.map Constraint.toJson))),
    ("reportUpdate", if c.report then some (.bool true) else none)]

theorem toJson_slots (c : Change) : c.toJson = Json.ofFields (Json.written c.slots) := by
  unfold toJson slots Json.written
  cases c.value.isNull <;> by_cases hnone : c.constraints = [] <;> cases c.report <;>
    simp [hnone, Json.present]

theorem reads {c : Change} (h : ∀ k ∈ c.constraints, k.Formed) : ofJson? c.toJson = some c := by
  have hrecord := Json.record?_written ["op", "value", "constraints", "reportUpdate"] c.slots (by simp [slots])
  have hop : (Json.fieldsOf c.slots).required "op" Json.str? = some c.op := Json.Fields.required_eq rfl rfl
  have hvalue : (Json.fieldsOf c.slots).withDefault "value" .null some = some c.value := by
    have hslot : Json.fieldsOf c.slots "value" = if c.value.isNull then none else some c.value := rfl
    refine Json.Fields.withDefault_eq hslot ?_ ?_
    · cases c.value <;> simp [Json.isNull]
    · cases c.value <;> simp [Json.isNull]
  have hconstraints : (Json.fieldsOf c.slots).withDefault "constraints" [] (Json.listOf? Constraint.ofJson?) =
      some c.constraints := by
    have hslot : Json.fieldsOf c.slots "constraints" =
        if c.constraints = [] then none else some (.arr (c.constraints.map Constraint.toJson)) := rfl
    refine Json.Fields.withDefault_eq hslot ?_ ?_
    · simp
    · intro json hjson
      split at hjson
      · cases hjson
      · cases hjson
        have hread := Json.listOf?_map (f := id) fun k hk => Constraint.reads (h k hk)
        rw [List.map_id] at hread
        exact hread
  have hreport : (Json.fieldsOf c.slots).withDefault "reportUpdate" false Json.bool? = some c.report := by
    have hslot : Json.fieldsOf c.slots "reportUpdate" = if c.report then some (.bool true) else none := rfl
    refine Json.Fields.withDefault_eq hslot ?_ ?_
    · cases c.report <;> simp
    · cases c.report <;> simp [Json.bool?]
  rw [toJson_slots]
  unfold ofJson?
  simp only [hrecord, hop, hvalue, hconstraints, hreport, Option.bind_eq_bind, Option.bind_some]
  rfl

theorem formed_of_ofJson? {json : Json} {c : Change} (h : ofJson? json = some c) :
    ∀ k ∈ c.constraints, k.Formed := by
  obtain ⟨fields, -, h⟩ := Option.bind_eq_some_iff.1 h
  obtain ⟨op, -, h⟩ := Option.bind_eq_some_iff.1 h
  obtain ⟨value, -, h⟩ := Option.bind_eq_some_iff.1 h
  obtain ⟨constraints, hconstraints, h⟩ := Option.bind_eq_some_iff.1 h
  obtain ⟨report, -, h⟩ := Option.bind_eq_some_iff.1 h
  cases h
  rcases Json.Fields.of_withDefault hconstraints with rfl | ⟨json, -, hread⟩
  · exact List.forall_mem_nil _
  · obtain ⟨items, -, hitems⟩ := Option.bind_eq_some_iff.1 hread
    intro k hk
    obtain ⟨item, -, hitem⟩ := Json.exists_of_mem_mapM hitems hk
    exact Constraint.formed_of_ofJson? hitem

theorem read_toJson {c : Change} (h : c.Formed) : read c.toJson = .ok c := by
  obtain ⟨operator, hoperator⟩ := Option.isSome_iff_exists.1 h.known
  unfold read
  rw [reads h.constraints]
  dsimp only
  rw [hoperator]

theorem formed_of_read {json : Json} {c : Change} (h : read json = .ok c) : c.Formed := by
  unfold read at h
  split at h
  · cases h
  · next change hchange =>
    split at h
    · next operator hoperator =>
      cases h
      exact ⟨by rw [hoperator]; rfl, formed_of_ofJson? hchange⟩
    · cases h

end Change

namespace Expression

-- An expression that data can be read as; plain data is one if it does not read as another.
def Formed : Expression → Prop
  | literal value => ofJson value = .ok (literal value)
  | reference path => path.Parsed
  | change c => c.Formed

theorem reads {e : Expression} (h : e.Formed) : ofJson e.toJson = .ok e := by
  cases e with
  | literal value => exact h
  | reference path =>
      have hpath : Path.parse path.text = .ok path := h
      change readReference (.str path.text) = _
      unfold readReference
      dsimp only
      rw [hpath]
  | change c =>
      change (Change.read c.toJson).map change = _
      rw [Change.read_toJson h]
      rfl

theorem formed_of_readReference {json : Json} {e : Expression} (h : readReference json = .ok e) : e.Formed := by
  unfold readReference at h
  split at h
  · next text =>
    split at h
    · next path hpath =>
      cases h
      exact Path.parsed_of_parse hpath
    · cases h
  · cases h

theorem formed_of_ofJson {json : Json} {e : Expression} (h : ofJson json = .ok e) : e.Formed := by
  have hread := h
  unfold ofJson at h
  split at h
  · split at h
    · obtain ⟨c, hc, rfl⟩ := ok_of_map h
      exact Change.formed_of_read hc
    · split at h
      · exact formed_of_readReference h
      · cases h
        exact hread
  · cases h
    exact hread

-- Data that reads as an expression is written as data that reads as the same one, and so in one form from then on.
-- So does every change of a known operation, with any value and any constraints of finite bounds, and every
-- reference.
theorem expressions_survive :
    (∀ (x : Json) (e : Expression), ofJson x = .ok e →
      ofJson e.toJson = .ok e ∧ ∀ again, ofJson e.toJson = .ok again → again.toJson = e.toJson) ∧
    (∀ c : Change, (Operator.ofName? c.op).isSome = true → (∀ k ∈ c.constraints, k.Formed) →
      ofJson (change c).toJson = .ok (change c)) ∧
    ∀ (text : String) (path : Path), Path.parse text = .ok path →
      ofJson (reference path).toJson = .ok (reference path) := by
  refine ⟨fun x e h => ?_, fun c hop hconstraints => reads ⟨hop, hconstraints⟩,
    fun text path h => reads (Path.parsed_of_parse h)⟩
  have hread := reads (formed_of_ofJson h)
  refine ⟨hread, fun again hagain => ?_⟩
  rw [hread] at hagain
  cases hagain
  rfl

-- A change in another spelling, with a constraint as an array, one that is made by a program, and a reference.
section Spelling

def scaled : Change where
  op := "mul"
  value := .ofSmall 8 (by decide)
  constraints := [.clamp none (some (Double.ofInt 60)), .round (some 5)]

def spelled : Json :=
  let constraints : List Json :=
    [.obj [("max", .ofSmall 60 (by decide)), ("type", .str "clamp")], .arr [.str "round", .ofSmall 5 (by decide)]]
  .obj [("_expr_", .obj [("constraints", .arr constraints), ("op", .str "mul"), ("value", .ofSmall 8 (by decide))])]

def noted : Change := { op := "append", constraints := [.maxLength 3, .format "note"], report := true }

def floor : Path := ⟨"position/1", [{ kind := .member, value := "position" }, { kind := .index, value := "1" }]⟩

theorem expressions_survive_spelled :
    (ofJson spelled = .ok (change scaled) ∧ ofJson (change scaled).toJson = .ok (change scaled) ∧
      ∀ again, ofJson (change scaled).toJson = .ok again → again.toJson = (change scaled).toJson) ∧
    ofJson (change noted).toJson = .ok (change noted) ∧
    ofJson (reference floor).toJson = .ok (reference floor) := by
  obtain ⟨hread, hchange, hreference⟩ := expressions_survive
  have hspelled : ofJson spelled = .ok (change scaled) := by rfl
  have hnoted : ∀ k ∈ noted.constraints, k.Formed := by
    simp [noted, Constraint.Formed]
  exact ⟨⟨hspelled, hread _ _ hspelled⟩, hchange noted rfl hnoted, hreference "position/1" floor rfl⟩

end Spelling

end Expression

end SceneLink
