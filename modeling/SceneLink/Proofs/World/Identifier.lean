import SceneLink.Proofs.Operation.Issuer
import SceneLink.Proofs.Path.Spelling
import SceneLink.Proofs.World.Aliasing
import SceneLink.Proofs.World.Excited

namespace SceneLink

namespace Issuer

theorem sanitize_clean (kind : String) : ∀ c ∈ (sanitize kind).toList, isPathMark c = false := by
  unfold sanitize
  split
  · have hall : (Template.defaultKind.toList.all fun c => !isPathMark c) = true := by decide
    simpa using hall
  · rw [String.toList_ofList]
    intro c hc
    obtain ⟨d, -, rfl⟩ := List.mem_map.1 hc
    split
    · rfl
    · next hd => simpa using hd

theorem toList_idFor (kind : String) (n : Nat) :
    (idFor kind n).toList = (sanitize kind).toList ++ '_' :: Nat.toDigits 10 n := by
  have hdigits : (String.ofList (Nat.toDigits 10 n)).toList = Nat.toDigits 10 n := String.toList_ofList
  unfold idFor
  rw [String.toList_append, String.toList_append, hdigits, List.append_assoc]
  rfl

theorem not_isPathMark_of_isDigit {c : Char} (h : Text.isDigit c = true) : isPathMark c = false := by
  unfold isPathMark
  simp only [Bool.or_eq_false_iff, decide_eq_false_iff_not]
  refine ⟨⟨⟨?_, ?_⟩, ?_⟩, ?_⟩ <;>
    · rintro rfl
      exact absurd h (by decide)

theorem idFor_clean (kind : String) (n : Nat) : ∀ c ∈ (idFor kind n).toList, isPathMark c = false := by
  rw [toList_idFor]
  intro c hc
  rcases List.mem_append.1 hc with hkind | hrest
  · exact sanitize_clean kind c hkind
  · rcases List.mem_cons.1 hrest with rfl | hdigit
    · rfl
    · exact not_isPathMark_of_isDigit (Text.digits_toDigits n c hdigit)

end Issuer

namespace Path

-- A text that can stand in a path as it is: it holds no mark of the grammar, and it is no number.
structure IsName (name : String) : Prop where
  clean : ∀ c ∈ name.toList, Issuer.isPathMark c = false
  wordy : ¬Text.Digits name.toList

theorem isName_idFor (kind : String) (n : Nat) : IsName (Issuer.idFor kind n) where
  clean := Issuer.idFor_clean kind n
  wordy := fun hdigits => absurd (hdigits '_' (by simp [Issuer.toList_idFor])) (by decide)

section Names

variable {name : String}

theorem IsName.not_mem (h : IsName name) {c : Char} (hc : Issuer.isPathMark c = true) : c ∉ name.toList := by
  intro hmem
  rw [h.clean c hmem] at hc
  cases hc

theorem IsName.getLast?_ne (h : IsName name) {c : Char} (hc : Issuer.isPathMark c = true) :
    name.toList.getLast? ≠ some c := fun hlast => h.not_mem hc (List.mem_of_getLast? hlast)

theorem IsName.ne_nil (h : IsName name) : name.toList ≠ [] := by
  intro hnil
  exact h.wordy (by simp [hnil, Text.Digits])

theorem IsName.pieceOf (h : IsName name) : PieceOf name.toList (.ofMember name) := by
  have hstripped : Stripped name.toList name.toList false false :=
    ⟨⟨[], .none, (List.append_nil _).symm⟩, fun _ => h.getLast?_ne rfl, fun _ => h.getLast?_ne rfl⟩
  have hreads : Reads name.toList .member name := by
    have hname := Reads.name (h.not_mem rfl) h.wordy
    rwa [String.ofList_toList] at hname
  refine ⟨⟨_, _, _, hstripped, h.ne_nil, fun hhead => h.not_mem rfl (List.mem_of_mem_head? hhead),
    fun _ kind value hreads' => ?_⟩, ⟨_, hstripped, hreads⟩, h.not_mem rfl⟩
  obtain ⟨rfl, rfl⟩ := hreads.unique hreads'
  exact .other nofun nofun

theorem IsName.object (h : IsName name) :
    PieceOf ("object:".toList ++ name.toList) { kind := .object, value := name } := by
  have hobject : Names "object".toList .object := names_of_mem (by decide)
  have hregular : Regular { kind := .object, value := name } :=
    ⟨⟨_, by decide, hobject⟩, h.not_mem rfl, fun _ => h.getLast?_ne rfl, fun _ => h.getLast?_ne rfl,
      fun _ => .other nofun nofun⟩
  exact hregular.pieceOf ⟨_, [], hobject, .none, by rw [List.append_nil]; rfl⟩

end Names

end Path

namespace World

section Objects

variable {w : World} {root value node : Node} {step : Step} {steps : List Step} {h : Handle} {s t : Scene}

-- Whatever is written below an object, the object stays where it is.
theorem setAt_object (w : World) (root value : Node) (step : Step) (h : Handle) :
    Edit.Yields (· = .object h) (w.setAt root (.object h) step value) := by
  have hchange (f : Scene → Except AccessError Scene) :
      Edit.Yields (· = Node.object h) (do Edit.change f; return .object h) :=
    .bind (fun _ => by exact Edit.yields_pure rfl) _
  unfold setAt
  dsimp only
  split
  · exact .bind (fun _ => hchange _) _
  · exact .bind (fun _ => .bind (fun _ => hchange _) _) _
  · exact .bind (fun _ => hchange _) _
  · exact .bind (fun _ => .bind (fun _ => .bind (fun _ => .bind (fun _ => by exact Edit.yields_pure rfl) _) _) _) _
  · exact Edit.yields_throw _
  · exact Edit.yields_throw _

theorem setSteps_object (hrun : (w.setSteps root value steps (.object h)).run s = (.ok (some node), t)) :
    node = .object h := by
  cases steps with
  | nil => cases hrun
  | cons step rest =>
      cases rest with
      | nil => exact setAt_object w root value step h _ _ _ (skippable_some hrun)
      | cons next rest =>
          rw [setSteps_cons] at hrun
          split at hrun
          · split at hrun <;> cases hrun
          · split at hrun
            · cases hrun
            · cases hrun
            · cases hrun
              rfl
            · exact setAt_object w root _ step h _ _ _ (skippable_some hrun)

end Objects

-- A write along some steps from an object, with the root from which evaluated texts are read.
def setFrom (w : World) (root : Node) (h : Handle) (steps : List Step) (value : Node) : Written Unit :=
  match (w.setSteps root value steps (.object h)).run w.scene with
  | (result, scene) => ⟨{ w with scene }, root, result.map fun _ => ()⟩

section Addresses

variable {w : World} {root value : Node} {path : Path} {target : Step} {steps : List Step} {h : Handle}

def Addresses (target : Step) (id : String) : Prop := target = { kind := .object, value := id }

theorem get_registered {id : String} (htarget : Addresses target id) (hpath : path.steps = target :: steps) :
    w.get root path = match w.registry.get? id with
      | some h => w.walk w.evaluate root steps (.object h)
      | none => .error (.unknownObject id) := by
  cases htarget
  unfold get
  rw [hpath, walk, stepFrom_wire w.evaluate root rfl rfl]
  cases w.registry.get? id <;> rfl

theorem set_registered {id : String} (htarget : Addresses target id) (hpath : path.steps = target :: steps)
    (hne : steps ≠ []) : w.set root path value = match w.registry.get? id with
      | some h => w.setFrom root h steps value
      | none => ⟨w, root, .error (.unknownObject id)⟩ := by
  cases htarget
  have hsteps : path.steps ≠ [] := by simp [hpath]
  obtain ⟨next, rest, rfl⟩ := List.exists_cons_of_ne_nil hne
  rw [set_eq hsteps, hpath, setSteps_cons, enter_run, stepFrom_wire w.evaluate root rfl rfl]
  cases w.registry.get? id with
  | none => rfl
  | some h =>
      dsimp only
      unfold setFrom
      rcases hrun : (w.setSteps root value (next :: rest) (.object h)).run w.scene with ⟨result, t⟩
      match result with
      | .error e => rfl
      | .ok none => rfl
      | .ok (some node) =>
          cases setSteps_object hrun
          rfl

end Addresses

-- The text of an identifier is one step, which is a member by itself and the object of that identifier with the tag
-- in front. So a path that begins like this goes on from the object that is registered by the identifier, when it
-- is read as well as when it is written, and it fails if there is none.
theorem identifier_starts_path (kind : String) (n : Nat) :
    let id := (Issuer.issue ⟨n⟩ kind).1
    let member : Step := { kind := .member, value := id, conditional := false, excited := false }
    let object : Step := { kind := .object, value := id, conditional := false, excited := false }
    Path.parse id = .ok ⟨id, [member]⟩ ∧
    Path.parse ("object:" ++ id) = .ok ⟨"object:" ++ id, [object]⟩ ∧
    ∀ rest path, Path.parse rest = .ok path → path.steps ≠ [] →
      let whole : Path := ⟨"object:" ++ id ++ "/" ++ rest, object :: path.steps⟩
      Path.parse ("object:" ++ id ++ "/" ++ rest) = .ok whole ∧
      ∀ (w : World) (root value : Node),
        (w.get root whole = match w.registry.get? id with
          | some h => w.walk w.evaluate root path.steps (.object h)
          | none => .error (.unknownObject id)) ∧
        w.set root whole value = match w.registry.get? id with
          | some h => w.setFrom root h path.steps value
          | none => ⟨w, root, .error (.unknownObject id)⟩ := by
  intro id member object
  have hname : Path.IsName id := Path.isName_idFor kind n
  have hobject : ("object:" ++ id).toList = "object:".toList ++ id.toList := String.toList_append
  have hpiece : Path.PieceOf ("object:" ++ id).toList object := hobject ▸ hname.object
  refine ⟨Path.parse_of_pieces (Text.splitOn_cut '/' id.toList) ?_,
    Path.parse_of_pieces (Text.splitOn_cut '/' ("object:" ++ id).toList) ?_, fun rest path hparse hsteps => ?_⟩
  · rw [List.splitOn_eq_singleton hname.pieceOf.slash]
    exact .cons hname.pieceOf .nil
  · rw [List.splitOn_eq_singleton hpiece.slash]
    exact .cons hpiece .nil
  · intro whole
    have hrest : rest ≠ "" := by
      rintro rfl
      cases hparse
      exact hsteps rfl
    have htext : whole.text.toList = ("object:" ++ id).toList ++ '/' :: rest.toList := by
      change ("object:" ++ id ++ "/" ++ rest).toList = _
      rw [String.toList_append, String.toList_append, List.append_assoc]
      rfl
    refine ⟨Path.parse_of_pieces (Text.splitOn_cut '/' whole.text.toList) ?_, fun w root value =>
      ⟨get_registered rfl rfl, set_registered rfl rfl hsteps⟩⟩
    rw [htext, List.splitOn_append_cons_self_of_not_mem hpiece.slash]
    exact .cons hpiece (Path.pieces_of_parse hrest hparse)

-- The identifier of a kind that holds all marks, with a registered ball behind it.
section Ball

def court : World where
  scene := { objects := [.entity { name := "Ball" }] }
  registry := { entries := [("_Balls__Red__0", { handle := 0 })], names := [(0, "_Balls__Red__0")] }

def nameAlone : Path where
  text := "name"
  steps := [.ofMember "name"]

theorem identifier_starts_path_ball :
    Path.parse "name" = .ok nameAlone ∧ nameAlone.steps ≠ [] ∧
    (Issuer.issue ⟨0⟩ "/Balls:?Red!").1 = "_Balls__Red__0" ∧
    Path.parse "_Balls__Red__0" = .ok ⟨"_Balls__Red__0", [.ofMember "_Balls__Red__0"]⟩ ∧
    Path.parse "object:_Balls__Red__0/name" = .ok ⟨"object:_Balls__Red__0/name",
      [{ kind := .object, value := "_Balls__Red__0" }, .ofMember "name"]⟩ ∧
    court.get .null ⟨"object:_Balls__Red__0/name",
      [{ kind := .object, value := "_Balls__Red__0" }, .ofMember "name"]⟩ = .ok (.value (.str "Ball")) := by
  have hid : (Issuer.issue ⟨0⟩ "/Balls:?Red!").1 = "_Balls__Red__0" := by decide +kernel
  have hparse : Path.parse "name" = .ok nameAlone := by rfl
  have hne : nameAlone.steps ≠ [] := List.cons_ne_nil _ _
  obtain ⟨hmember, -, hpaths⟩ := identifier_starts_path "/Balls:?Red!" 0
  obtain ⟨hwhole, hworld⟩ := hpaths "name" nameAlone hparse hne
  have hget := (hworld court .null .null).1
  rw [hid] at hmember hwhole hget
  exact ⟨hparse, hne, hid, hmember, hwhole, hget⟩

end Ball

end World

end SceneLink
