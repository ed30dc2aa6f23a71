import SceneLink.Proofs.Double.Decimal
import SceneLink.Proofs.Double.Whole
import SceneLink.Proofs.Outcome
import SceneLink.Proofs.Path.Grammar
import SceneLink.World.Read

namespace SceneLink

namespace Text

-- The word `nan` in any letter case, with a sign in front if one likes.
def SpellsNan (cs : List Char) : Prop := String.ofList ((splitSign cs).2.map lowerAscii) = "nan"

instance (cs : List Char) : Decidable (SpellsNan cs) := inferInstanceAs (Decidable (_ = _))

theorem double?_eq_nan {cs : List Char} : double? cs = some .nan ↔ SpellsNan cs := by
  unfold double? SpellsNan
  dsimp only
  split
  · next hinfinite =>
    refine ⟨(fun h => nomatch h), fun h => ?_⟩
    rw [h] at hinfinite
    exact absurd hinfinite (by decide)
  · split
    · next hnan => exact ⟨fun _ => hnan, fun _ => rfl⟩
    · next hnan =>
      refine ⟨fun h => ?_, fun h => absurd h hnan⟩
      obtain ⟨d, -, hd⟩ := Option.map_eq_some_iff.1 h
      exact absurd hd (Decimal.toDouble_ne_nan _ d)

theorem integer?_bounds {cs : List Char} {n : Int} (h : integer? cs = some n) : -2 ^ 63 ≤ n ∧ n < 2 ^ 63 := by
  unfold integer? at h
  dsimp only at h
  obtain ⟨digits, -, hrange⟩ := Option.bind_eq_some_iff.1 h
  split at hrange
  · split at hrange
    · cases hrange
      omega
    · cases hrange
  · split at hrange
    · cases hrange
      omega
    · cases hrange

end Text

namespace Literal

-- The values of a declared type. A float may be any number, and an integer has a sign and 63 bits.
inductive Admits : Literal → Json → Prop
  | string (s : String) : Admits .string (.str s)
  | float (n : Number) : Admits .float (.num n)
  | integer {n : Int} (low : -2 ^ 63 ≤ n) (high : n < 2 ^ 64) (hn : n < 2 ^ 63) :
      Admits .integer (.num (.int n low high))
  | boolean (b : Bool) : Admits .boolean (.bool b)
  | null : Admits .null .null
  | json (json : Json) : Admits .json json

variable {type : Literal} {value json : Json} {raw : String}

theorem admits_ofInt {n : Int} (hn : -2 ^ 63 ≤ n ∧ n < 2 ^ 63) : Admits .integer (Json.ofInt n) := by
  have hbounds : -2 ^ 63 ≤ n ∧ n < 2 ^ 64 := by omega
  have hdata : Json.ofInt n = .num (.int n hbounds.1 hbounds.2) := by
    unfold Json.ofInt Number.ofInt?
    rw [dif_pos hbounds]
    rfl
  rw [hdata]
  exact .integer _ _ hn.2

theorem admits_ofDouble {x : Double} (hx : x ≠ .nan) : Admits .float (Json.ofDouble x) := by
  obtain ⟨n, hn⟩ := Json.exists_ofDouble hx
  rw [hn]
  exact .float n

-- A text that spells no number, although it is read as a double.
def SpellsNan (value : Json) : Prop := ∃ raw, value = .str raw ∧ Text.SpellsNan (Text.trim raw.toList)

theorem coerce_nan (h : SpellsNan value) : Literal.float.coerce value = .ok .null := by
  obtain ⟨raw, rfl, hnan⟩ := h
  have hread : readDouble? raw = some .nan := Text.double?_eq_nan.2 hnan
  unfold coerce
  dsimp only
  rw [hread]
  rfl

theorem admits_of_coerce (h : type.coerce value = .ok json) (hnan : type = .float → ¬SpellsNan value) :
    type.Admits json := by
  unfold coerce at h
  cases type with
  | string =>
      dsimp only at h
      split at h <;> (cases h; exact .string _)
  | null =>
      cases h
      exact .null
  | json =>
      cases h
      exact .json _
  | float =>
      cases value with
      | num n =>
          cases h
          exact admits_ofDouble n.toDouble_ne_nan
      | str raw =>
          dsimp only at h
          split at h
          · next coerced hcoerced =>
            obtain ⟨x, hx, rfl⟩ := Option.map_eq_some_iff.1 hcoerced
            cases h
            refine admits_ofDouble fun hxnan => hnan rfl ⟨raw, rfl, Text.double?_eq_nan.1 ?_⟩
            rw [← hxnan]
            exact hx
          · cases h
      | _ => cases h
  | integer =>
      cases value with
      | num n =>
          -- A number beyond the range becomes the end of the range that it has passed.
          cases n with
          | int n low high =>
              cases h
              exact admits_ofInt (by omega)
          | float x =>
              cases h
              exact admits_ofInt (by omega)
      | str raw =>
          dsimp only at h
          split at h
          · next coerced hcoerced =>
            obtain ⟨n, hn, rfl⟩ := Option.map_eq_some_iff.1 hcoerced
            cases h
            exact admits_ofInt (Text.integer?_bounds hn)
          · cases h
      | _ => cases h
  | boolean =>
      cases value with
      | bool b =>
          cases h
          exact .boolean b
      | str raw =>
          dsimp only at h
          split at h
          · next coerced hcoerced =>
            obtain ⟨b, -, rfl⟩ := Option.map_eq_some_iff.1 hcoerced
            cases h
            exact .boolean b
          · cases h
      | _ => cases h

theorem admits_of_read? (h : type.read? raw = some json) : type.Admits json := by
  unfold read? at h
  cases type with
  | string =>
      cases h
      exact .string raw
  | null =>
      cases h
      exact .null
  | json => exact .json _
  | float =>
      dsimp only at h
      split at h
      · cases h
        exact .float _
      · cases h
  | integer =>
      obtain ⟨n, hn, rfl⟩ := Option.map_eq_some_iff.1 h
      exact admits_ofInt (Text.integer?_bounds hn)
  | boolean =>
      obtain ⟨b, -, rfl⟩ := Option.map_eq_some_iff.1 h
      exact .boolean b

theorem not_admits_null : ¬Admits .float .null := nofun

theorem admits_iff (h : type.coerce value = .ok json) :
    type.Admits json ↔ ¬(type = .float ∧ SpellsNan value) := by
  refine ⟨fun hadmits hnan => ?_, fun hnan => admits_of_coerce h fun htype hspells => hnan ⟨htype, hspells⟩⟩
  obtain ⟨rfl, hspells⟩ := hnan
  rw [coerce_nan hspells] at h
  cases h
  exact not_admits_null hadmits

end Literal

namespace World

variable {w : World} {eval : Evaluator} {root current node : Node} {step : Step} {type : Literal}

theorem stepFrom_literal (hkind : step.kind = .literal type) :
    w.stepFrom eval root current step = w.literalAt eval root current step type := by
  unfold stepFrom
  rw [hkind]

theorem literalAt_excited (hexcited : step.excited = true)
    (h : w.literalAt eval root current step type = .ok node) :
    ∃ value json, eval root current step.value = .ok (.value value) ∧ type.coerce value = .ok json ∧
      node = .value json := by
  unfold literalAt at h
  rw [if_pos hexcited] at h
  obtain ⟨evaluated, heval, h⟩ := ok_of_bind h
  obtain ⟨value, hvalue, h⟩ := ok_of_bind h
  obtain ⟨json, hjson, h⟩ := ok_of_bind h
  have hnode : node = .value json := (Except.ok.inj h).symm
  cases evaluated with
  | object handle => cases hvalue
  | value held =>
      have hheld : held = value := Except.ok.inj hvalue
      exact ⟨value, json, hheld ▸ heval, hjson, hnode⟩

theorem literalAt_verbatim (hverbatim : step.excited = false) {json : Json}
    (hread : type.read? step.value = some json) :
    w.literalAt eval root current step type = .ok (.value json) := by
  unfold literalAt
  rw [hverbatim, if_neg Bool.false_ne_true, hread]

-- Whatever is brought to a declared type, by itself or as the value of an excited step, is of that type, unless it
-- is a text that spells `nan`, which becomes null as a float. The other literal steps of a path that was read give
-- a value of their type wherever they stand.
theorem literals_of_declared_type (type : Literal) :
    (∀ value json, type.coerce value = .ok json →
      (type.Admits json ↔ ¬(type = .float ∧ Literal.SpellsNan value)) ∧
      (type = .float → Literal.SpellsNan value → json = .null)) ∧
    (∀ (w : World) (eval : Evaluator) (root current node : Node) (step : Step),
      step.kind = .literal type → step.excited = true → w.stepFrom eval root current step = .ok node →
      ∃ value json, eval root current step.value = .ok (.value value) ∧ node = .value json ∧
        (type.Admits json ↔ ¬(type = .float ∧ Literal.SpellsNan value))) ∧
    (∀ (text : String) (path : Path) (step : Step), Path.parse text = .ok path →
      step ∈ path.steps → step.kind = .literal type → step.excited = false →
      ∃ json, type.Admits json ∧ ∀ (w : World) (eval : Evaluator) (root current : Node),
        w.stepFrom eval root current step = .ok (.value json)) := by
  refine ⟨fun value json h => ⟨Literal.admits_iff h, fun htype hnan => ?_⟩,
    fun w eval root current node step hkind hexcited h => ?_,
    fun text path step hparse hstep hkind hverbatim => ?_⟩
  · rw [htype, Literal.coerce_nan hnan] at h
    cases h
    rfl
  · rw [stepFrom_literal hkind] at h
    obtain ⟨value, json, heval, hcoerce, rfl⟩ := literalAt_excited hexcited h
    exact ⟨value, json, heval, rfl, Literal.admits_iff hcoerce⟩
  · have hfits : Path.Fits (.literal type) step.value := hkind ▸ Path.fits_of_parse hparse hstep hverbatim
    have hspells : Path.Spells type step.value := by
      cases hfits with
      | literal hspells => exact hspells
      | other _ hne => exact absurd rfl (hne type)
    obtain ⟨json, hread⟩ := (Path.read?_iff type step.value).2 hspells
    refine ⟨json, Literal.admits_of_read? hread, fun w eval root current => ?_⟩
    rw [stepFrom_literal hkind, literalAt_verbatim hverbatim hread]

-- An integer from a text, the same as a step of a path and as the value of an excited step, and a float from
-- the text that spells no number.
section Five

def five : Path where
  text := "int: 5"
  steps := [{ kind := .literal .integer, value := " 5" }]

-- The value is a text of JSON, which is evaluated.
def excitedStep (type : Literal) (text : String) : Step where
  kind := .literal type
  excited := true
  value := "\"" ++ text ++ "\""

theorem literals_of_declared_type_five :
    Literal.coerce .integer (.str " 5") = .ok (Json.ofInt 5) ∧ Literal.Admits .integer (Json.ofInt 5) ∧
    (∃ json, ({} : World).stepFrom ({} : World).evaluate .null .null (excitedStep .integer " 5") =
      .ok (.value json) ∧ Literal.Admits .integer json) ∧
    (∃ json, ({} : World).stepFrom ({} : World).evaluate .null .null (excitedStep .float "nan") =
      .ok (.value json) ∧ ¬Literal.Admits .float json) ∧
    Path.parse "int: 5" = .ok five ∧
    (∃ json, Literal.Admits .integer json ∧ ∀ (w : World) (eval : Evaluator) (root current : Node),
      w.stepFrom eval root current { kind := .literal .integer, value := " 5" } = .ok (.value json)) ∧
    Literal.SpellsNan (.str "-NaN") ∧ Literal.coerce .float (.str "-NaN") = .ok .null ∧
    ¬Literal.Admits .float .null := by
  obtain ⟨hcoerced, hexcited, hparsed⟩ := literals_of_declared_type .integer
  obtain ⟨hfloat, hexcitedFloat, -⟩ := literals_of_declared_type .float
  have hfive : Literal.coerce .integer (.str " 5") = .ok (Json.ofInt 5) := rfl
  have hparse : Path.parse "int: 5" = .ok five := rfl
  have hnan : Literal.SpellsNan (.str "-NaN") := ⟨"-NaN", rfl, by decide +kernel⟩
  have hnull : Literal.coerce .float (.str "-NaN") = .ok .null := Literal.coerce_nan hnan
  have hinteger : Literal.Admits .integer (Json.ofInt 5) := (hcoerced _ _ hfive).1.2 nofun
  have hnone : ¬Literal.Admits .float .null := fun hadmits => (hfloat _ _ hnull).1.1 hadmits ⟨rfl, hnan⟩
  refine ⟨hfive, hinteger, ?_, ?_, hparse, ?_, hnan, hnull, hnone⟩
  · have hstep : ({} : World).stepFrom ({} : World).evaluate .null .null (excitedStep .integer " 5") =
        .ok (.value (Json.ofInt 5)) := rfl
    obtain ⟨value, json, -, hjson, hadmits⟩ := hexcited {} _ _ _ _ _ rfl rfl hstep
    exact ⟨json, hjson ▸ hstep, hadmits.2 nofun⟩
  · have hstep : ({} : World).stepFrom ({} : World).evaluate .null .null (excitedStep .float "nan") =
        .ok (.value .null) := rfl
    obtain ⟨value, json, hvalue, hjson, hadmits⟩ := hexcitedFloat {} _ _ _ _ _ rfl rfl hstep
    have hevaluated : ({} : World).evaluate .null .null (excitedStep .float "nan").value =
        .ok (.value (.str "nan")) := rfl
    have hspelt : Literal.SpellsNan value :=
      Node.value.inj (Except.ok.inj (hevaluated.symm.trans hvalue)) ▸ ⟨"nan", rfl, by decide +kernel⟩
    exact ⟨json, hjson ▸ hstep, fun h => hadmits.1 h ⟨rfl, hspelt⟩⟩
  · exact hparsed _ five _ hparse List.mem_cons_self rfl rfl

end Five

-- A word that is read as a double and yet is no number.
theorem nan_as_float : ∃ value json, Literal.coerce .float value = .ok json ∧ ¬Literal.Admits .float json :=
  ⟨.str "nan", .null, Literal.coerce_nan ⟨"nan", rfl, by decide +kernel⟩, Literal.not_admits_null⟩

end World

end SceneLink
