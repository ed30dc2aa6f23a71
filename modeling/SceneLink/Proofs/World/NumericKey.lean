import SceneLink.Proofs.Double.Whole
import SceneLink.Proofs.Json.Number
import SceneLink.Proofs.World.Excited

namespace SceneLink

namespace Double

theorem le_nearest_of_dvd {units m : Nat} (hdvd : gap units 1 ∣ m) (hle : m ≤ units) : m ≤ nearest units 1 := by
  obtain ⟨k, rfl⟩ := hdvd
  have hpos : 0 < gap units 1 := Nat.mul_pos Nat.one_pos (Nat.two_pow_pos _)
  have hkept : k ≤ units / gap units 1 := (Nat.le_div_iff_mul_le hpos).2 (Nat.mul_comm _ k ▸ hle)
  have hgap : 2 ^ (bitLength (units / 1) - 53) = gap units 1 := (Nat.one_mul _).symm
  rw [nearest_eq, hgap, Nat.mul_comm (gap units 1) k]
  refine Nat.mul_le_mul_right _ ?_
  split <;> omega

-- Rounding does not take a number of more than 53 bits below 2^53.
theorem le_units_of_large {n : Int} (hlarge : 2 ^ 53 ≤ n.natAbs) (hn : n.natAbs < 2 ^ 64) {x : Finite}
    (hx : ofInt n = finite x) : 2 ^ 53 * one ≤ x.units := by
  obtain ⟨y, hy, hunits⟩ := ofInt_word hn
  cases hx.symm.trans hy
  have hlength : bitLength (n.natAbs * one) ≤ 1138 := by
    have hlargest : 2 ^ 64 * one = 2 ^ 1138 := by decide +kernel
    rw [bitLength_le_iff, ← hlargest]
    exact Nat.mul_lt_mul_of_pos_right hn units_one_pos
  have hgap : gap (n.natAbs * one) 1 = 2 ^ (bitLength (n.natAbs * one) - 53) := by
    unfold gap
    rw [Nat.one_mul, Nat.div_one]
  have hdvd : gap (n.natAbs * one) 1 ∣ 2 ^ 53 * one := by
    have hleast : 2 ^ 1127 = 2 ^ 53 * one := by decide +kernel
    rw [hgap]
    exact (Nat.pow_dvd_pow 2 (by omega)).trans (dvd_of_eq hleast)
  rw [hunits]
  exact le_nearest_of_dvd hdvd (Nat.mul_le_mul_right one hlarge)

end Double

namespace Json

variable {n : Int}

theorem ofDouble_ofInt_small (hn : n.natAbs < 2 ^ 53) : ofDouble (Double.ofInt n) = ofSmall n hn := by
  obtain ⟨x, hx, -, hunits⟩ := Double.ofInt_exact (Nat.le_of_lt hn)
  have htruncated : x.truncated = n := by
    have hint := Double.toInt_ofInt (Nat.le_of_lt hn)
    rwa [hx] at hint
  have hwhole : x.isWhole = true := by
    unfold Double.Finite.isWhole
    rw [hunits, Nat.mul_mod_left]
    rfl
  have hsmall : x.isWhole = true ∧ x.truncated.natAbs < 2 ^ 53 := ⟨hwhole, htruncated ▸ hn⟩
  rw [hx, ofDouble_finite, dif_pos hsmall]
  simp only [htruncated]

theorem ofDouble_ofInt_large (hlarge : 2 ^ 53 ≤ n.natAbs) (hn : n.natAbs < 2 ^ 64) :
    ∃ x : Double.Finite, ofDouble (Double.ofInt n) = num (.float x) := by
  obtain ⟨x, hx, -⟩ := Double.ofInt_word hn
  have hunits : 2 ^ 53 ≤ x.units / Double.one :=
    (Nat.le_div_iff_mul_le Double.units_one_pos).2 (Double.le_units_of_large hlarge hn hx)
  have htruncated : ¬x.truncated.natAbs < 2 ^ 53 := by
    unfold Double.Finite.truncated
    split <;> omega
  refine ⟨x, ?_⟩
  rw [hx, ofDouble_finite, dif_neg fun h => htruncated h.2]

theorem mark_of_layout (ds : List Char) (e : Int) : ∃ c ∈ layout ds e, c = '.' ∨ c = 'e' := by
  unfold layout
  split
  · exact ⟨'.', by simp, .inl rfl⟩
  · split
    · exact ⟨'.', by simp, .inl rfl⟩
    · exact ⟨'e', by simp, .inr rfl⟩

-- The text of a float has a point or an exponent.
theorem exists_mark (x : Double.Finite) : ∃ c ∈ renderDouble x, c = '.' ∨ c = 'e' := by
  have hsigned {body : List Char} (hbody : ∃ c ∈ body, c = '.' ∨ c = 'e') :
      ∃ c ∈ (if x.negative then '-' :: body else body), c = '.' ∨ c = 'e' := by
    obtain ⟨c, hc, hmark⟩ := hbody
    refine ⟨c, ?_, hmark⟩
    split
    · exact List.mem_cons_of_mem _ hc
    · exact hc
  unfold renderDouble
  refine hsigned ?_
  split
  · exact ⟨'.', by simp, .inl rfl⟩
  · exact mark_of_layout _ _

theorem mem_renderInt {c : Char} (hc : c ∈ renderInt n) : c = '-' ∨ Text.isDigit c = true := by
  cases n with
  | ofNat n => exact .inr (Text.digits_toDigits n c hc)
  | negSucc n =>
      rcases List.mem_cons.1 hc with rfl | hc
      · exact .inl rfl
      · exact .inr (Text.digits_toDigits (n + 1) c hc)

theorem renderDouble_ne_renderInt (x : Double.Finite) (n : Int) : renderDouble x ≠ renderInt n := by
  intro heq
  obtain ⟨c, hc, hmark⟩ := exists_mark x
  rw [heq] at hc
  rcases hmark with rfl | rfl <;> exact absurd (mem_renderInt hc) (by decide)

-- A float never spells a position.
theorem index?_renderDouble (x : Double.Finite) : Text.index? (renderDouble x) = none := by
  obtain ⟨c, hc, hmark⟩ := exists_mark x
  unfold Text.index?
  rw [Option.filter_eq_none_iff]
  intro index hindex
  obtain ⟨-, hdigits, -⟩ := Text.allDigits?_eq_some.1 hindex
  have hdigit : Text.isDigit c = true := by
    split at hdigits
    · next rest heq =>
      rw [heq] at hc
      rcases List.mem_cons.1 hc with rfl | hc
      · exact absurd hmark (by decide)
      · exact hdigits c hc
    · exact hdigits c hc
  rcases hmark with rfl | rfl <;> exact absurd hdigit (by decide)

def keyText (n : Int) : String := (ofDouble (Double.ofInt n)).text

theorem keyText_small (low : -2 ^ 63 ≤ n) (high : n < 2 ^ 64) (hn : n.natAbs < 2 ^ 53) :
    keyText n = (num (.int n low high)).text := by
  unfold keyText
  rw [ofDouble_ofInt_small hn]
  rfl

theorem keyText_large (hlarge : 2 ^ 53 ≤ n.natAbs) (hn : n.natAbs < 2 ^ 64) :
    ∃ x : Double.Finite, (keyText n).toList = renderDouble x := by
  obtain ⟨x, hx⟩ := ofDouble_ofInt_large hlarge hn
  refine ⟨x, ?_⟩
  unfold keyText
  rw [hx]
  exact String.toList_ofList

theorem keyText_eq_iff (low : -2 ^ 63 ≤ n) (high : n < 2 ^ 64) :
    keyText n = (num (.int n low high)).text ↔ n.natAbs < 2 ^ 53 := by
  refine ⟨fun heq => ?_, keyText_small low high⟩
  by_contra hlarge
  obtain ⟨x, hx⟩ := keyText_large (n := n) (by omega) (by omega)
  have htext : (num (.int n low high)).text.toList = renderInt n := String.toList_ofList
  exact renderDouble_ne_renderInt x n (by rw [← hx, heq, htext])

end Json

def Step.keyed (step : Step) (key : String) : Step := { step with value := key, excited := false }

theorem not_agree_of_isOk_ne {α : Type} {result result' : Except AccessError α} (h : result.isOk ≠ result'.isOk) :
    ¬Agree result result' := by
  intro hagree
  cases result with
  | ok a =>
      cases result' with
      | ok b => exact h rfl
      | error e => exact hagree.elim
  | error e =>
      cases result' with
      | ok b => exact hagree.elim
      | error e' => exact h rfl

namespace World

def addresses : StepKind → Bool
  | .literal _ | .unknown _ => false
  | _ => true

variable {w : World} {root current value : Node} {step : Step} {key : String}

theorem takesKey_or_method (h : addresses step.kind = true) : takesKey step.kind = true ∨ step.kind = .method := by
  cases hkind : step.kind with
  | method => exact .inr rfl
  | literal type | unknown tag =>
      rw [hkind] at h
      cases h
  | _ => exact .inl rfl

theorem evaluates_keyed (hkey : w.stepKey w.evaluate root step = .ok key) :
    w.Evaluates root step (step.keyed key) :=
  ⟨rfl, rfl, rfl, hkey⟩

theorem stepFrom_keyed (h : addresses step.kind = true) (hkey : w.stepKey w.evaluate root step = .ok key) :
    Agree (w.stepFrom w.evaluate root current step) (w.stepFrom w.evaluate root current (step.keyed key)) := by
  rcases takesKey_or_method h with htakes | hmethod
  · exact stepFrom_agree (evaluates_keyed hkey) htakes
  · have hplain : w.stepKey w.evaluate root (step.keyed key) = .ok key := stepKey_verbatim _ rfl
    have hkind : (step.keyed key).kind = .method := hmethod
    unfold stepFrom
    rw [hmethod, hkind, hkey, hplain]
    exact objectFor_agree

theorem setAt_keyed (h : addresses step.kind = true) (hkey : w.stepKey w.evaluate root step = .ok key) :
    Even ((w.setAt root current step value).run w.scene)
      ((w.setAt root current (step.keyed key) value).run w.scene) := by
  rcases takesKey_or_method h with htakes | hmethod
  · exact Even.of_eq (setAt_evaluated rfl rfl htakes hkey)
  · have hread : (w.reading fun w => w.stepKey w.evaluate root step).run w.scene = (.ok key, w.scene) :=
      Prod.ext hkey rfl
    have hplain : w.stepKey w.evaluate root (step.keyed key) = .ok key := stepKey_verbatim _ rfl
    have hread' : (w.reading fun w => w.stepKey w.evaluate root (step.keyed key)).run w.scene =
        (.ok key, w.scene) := Prod.ext hplain rfl
    have hkind : (step.keyed key).kind = .method := hmethod
    unfold setAt
    rw [hmethod, hkind]
    dsimp only
    rw [Edit.bind_run, Edit.bind_run, hread, hread']
    cases current with
    | object handle => exact Even.of_eq rfl
    | value json => exact ⟨.inr ⟨_, _, _, rfl, rfl⟩, rfl⟩

def integer? : Except AccessError Node → Option Int
  | .ok (.value (.num (.int n _ _))) => some n
  | _ => none

theorem integer?_eq_some {result : Except AccessError Node} {n : Int} (h : integer? result = some n) :
    ∃ low high, result = .ok (.value (.num (.int n low high))) := by
  unfold integer? at h
  split at h
  · cases h
    exact ⟨_, _, rfl⟩
  · cases h

theorem stepKey_of_int {n : Int} {low : -2 ^ 63 ≤ n} {high : n < 2 ^ 64} (hexcited : step.excited = true)
    (heval : w.evaluate root Node.null step.value = .ok (.value (.num (.int n low high)))) :
    w.stepKey w.evaluate root step = .ok (Json.keyText n) := by
  unfold stepKey
  rw [if_pos hexcited, heval]
  rfl

-- An excited step whose text is evaluated to a whole number is the step with the text of the nearest double in its
-- place. That is the decimal text of the number exactly below 2^53, and beyond it spells no position.
theorem whole_number_key {n : Int} {low : -2 ^ 63 ≤ n} {high : n < 2 ^ 64}
    (haddresses : addresses step.kind = true) (hexcited : step.excited = true)
    (heval : w.evaluate root Node.null step.value = .ok (.value (.num (.int n low high)))) :
    let Same (key : String) := ∀ current value,
      Agree (w.stepFrom w.evaluate root current step) (w.stepFrom w.evaluate root current (step.keyed key)) ∧
      Even ((w.setAt root current step value).run w.scene)
        ((w.setAt root current (step.keyed key) value).run w.scene)
    let spelled := (Json.num (.int n low high)).text
    (n.natAbs < 2 ^ 53 → Same spelled) ∧ Same (Json.keyText n) ∧
    (Json.keyText n = spelled ↔ n.natAbs < 2 ^ 53) ∧
    (2 ^ 53 ≤ n.natAbs → Text.index? (Json.keyText n).toList = none) := by
  intro Same spelled
  have hkey : w.stepKey w.evaluate root step = .ok (Json.keyText n) := stepKey_of_int hexcited heval
  have hsame : Same (Json.keyText n) := fun _ _ => ⟨stepFrom_keyed haddresses hkey, setAt_keyed haddresses hkey⟩
  refine ⟨fun hsmall => ?_, hsame, Json.keyText_eq_iff low high, fun hlarge => ?_⟩
  · have hspelled : Json.keyText n = spelled := Json.keyText_small low high hsmall
    rw [← hspelled]
    exact hsame
  · obtain ⟨x, hx⟩ := Json.keyText_large hlarge (by omega)
    rw [hx]
    exact Json.index?_renderDouble x

-- A table with a small and a large number among its keys.
section Drawers

def drawers : Json := .obj [("2", .null), ("9007199254740993", .str "far"), ("cursor", Json.ofNat 2)]

def pulled : Step := { kind := .map, value := "\x7b\"_path_\":\"cursor\"\x7d", excited := true }

def stretched : Step := { kind := .map, value := "9007199254740993", excited := true }

theorem whole_number_key_drawers : ∃ low high,
    ({} : World).evaluate (.value drawers) Node.null pulled.value = .ok (.value (.num (.int 2 low high))) ∧
    ∀ current value,
      Agree (({} : World).stepFrom ({} : World).evaluate (.value drawers) current pulled)
        (({} : World).stepFrom ({} : World).evaluate (.value drawers) current (pulled.keyed "2")) ∧
      Even ((({} : World).setAt (.value drawers) current pulled value).run ({} : World).scene)
        ((({} : World).setAt (.value drawers) current (pulled.keyed "2") value).run ({} : World).scene) := by
  have hspelled low high : (Json.num (.int 2 low high)).text = "2" := by decide +kernel +revert
  obtain ⟨low, high, heval⟩ : ∃ low high, ({} : World).evaluate (.value drawers) Node.null pulled.value =
      .ok (.value (.num (.int 2 low high))) := integer?_eq_some (by decide +kernel)
  have hsame := (whole_number_key rfl rfl heval).1 (by decide)
  rw [hspelled] at hsame
  exact ⟨low, high, heval, hsame⟩

-- The number names a drawer as a text, and none if it is evaluated first.
theorem key_lost : ∃ (w : World) (root current : Node) (step : Step) (n : Int) (low : -2 ^ 63 ≤ n)
    (high : n < 2 ^ 64), addresses step.kind = true ∧ step.excited = true ∧
    w.evaluate root Node.null step.value = .ok (.value (.num (.int n low high))) ∧
    ¬Agree (w.stepFrom w.evaluate root current step)
      (w.stepFrom w.evaluate root current (step.keyed (Json.num (.int n low high)).text)) := by
  have hspelled low high : (Json.num (.int 9007199254740993 low high)).text = "9007199254740993" := by
    decide +kernel +revert
  obtain ⟨low, high, heval⟩ : ∃ low high, ({} : World).evaluate (.value drawers) Node.null stretched.value =
      .ok (.value (.num (.int 9007199254740993 low high))) := integer?_eq_some (by decide +kernel)
  refine ⟨{}, .value drawers, .value drawers, stretched, _, low, high, rfl, rfl, heval, ?_⟩
  rw [hspelled]
  exact not_agree_of_isOk_ne (by decide +kernel)

end Drawers

end World

end SceneLink
