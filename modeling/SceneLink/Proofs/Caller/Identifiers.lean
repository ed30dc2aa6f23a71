import SceneLink.Proofs.Caller.Callbacks
import SceneLink.Proofs.Caller.Ledger
import SceneLink.Proofs.Caller.Lives

namespace SceneLink

variable {H N : Type}

-- What a request took from a counter: an identifier of some kind. The reply names it, unless the
-- request failed.
structure Issue where
  kind : String
  named : Option String
deriving DecidableEq

namespace Asked

def named? (a : Asked H) : Option String :=
  match a.reply with
  | .ok (.id id) => some id
  | _ => none

-- Every creation takes an identifier, also one that cannot be sent.
def objectIssue? (a : Asked H) : Option Issue :=
  match a.request with
  | .create template _ => some ⟨template.kind, a.named?⟩
  | _ => none

-- A query takes one once its object is known to be live.
def callbackIssue? (a : Asked H) : Option Issue :=
  match a.filing with
  | .registered id _ => some ⟨"Callback", some id⟩
  | .withdrawn => some ⟨"Callback", none⟩
  | _ => none

end Asked

namespace Issuer

-- An issuer from which identifiers are taken one after the other, each of the kind asked for, and
-- named as it was issued if it is named at all.
inductive Serves : Issuer → List Issue → Issuer → Prop
  | nil (issuer : Issuer) : Serves issuer [] issuer
  | cons {before after : Issuer} {issue : Issue} {issues : List Issue}
      (hnamed : ∀ name ∈ issue.named, name = (before.issue issue.kind).1)
      (h : Serves (before.issue issue.kind).2 issues after) : Serves before (issue :: issues) after

variable {before after : Issuer} {issues : List Issue}

theorem Serves.append {last : Issuer} {more : List Issue} (h : Serves before issues after)
    (h' : Serves after more last) : Serves before (issues ++ more) last := by
  induction h with
  | nil issuer => exact h'
  | cons hnamed _ ih => exact .cons hnamed (ih h')

-- The identifiers that are taken, whether they are named or not.
def taken (before : Issuer) (issues : List Issue) : List String :=
  (before.issueAll (issues.map (·.kind))).1

structure Unrepeated (before : Issuer) (issues : List Issue) (after : Issuer) : Prop where
  -- The issuer has issued one for each, and no others.
  issued : after = (before.issueAll (issues.map (·.kind))).2
  -- No two of them are the same, and those of requests that failed are no exception.
  distinct : (before.taken issues).Nodup
  -- A reply names the one that was taken for its request.
  named : List.Forall₂ (fun issue id => ∀ name ∈ issue.named, name = id) issues (before.taken issues)
  -- So no two replies name the same.
  answers : (issues.filterMap (·.named)).Nodup

theorem taken_cons (before : Issuer) (issue : Issue) (issues : List Issue) :
    before.taken (issue :: issues) =
      (before.issue issue.kind).1 :: (before.issue issue.kind).2.taken issues := rfl

theorem Serves.issued (h : Serves before issues after) :
    after = (before.issueAll (issues.map (·.kind))).2 := by
  induction h with
  | nil issuer => rfl
  | cons _ _ ih => exact ih

theorem Serves.named (h : Serves before issues after) :
    List.Forall₂ (fun issue id => ∀ name ∈ issue.named, name = id) issues (before.taken issues) := by
  induction h with
  | nil issuer => exact .nil
  | cons hnamed _ ih => exact .cons hnamed ih

theorem Serves.answers_sublist (h : Serves before issues after) :
    (issues.filterMap (·.named)).Sublist (before.taken issues) := by
  induction h with
  | nil issuer => exact .slnil
  | @cons before after issue issues hnamed _ ih =>
      rw [taken_cons, List.filterMap_cons]
      cases hname : issue.named with
      | none => exact ih.cons _
      | some name =>
          dsimp only
          rw [hnamed name hname]
          exact ih.cons_cons _

theorem Serves.unrepeated (h : Serves before issues after) : Unrepeated before issues after where
  issued := h.issued
  distinct := nodup_issueAll _ _
  named := h.named
  answers := (nodup_issueAll _ _).sublist h.answers_sublist

end Issuer

namespace Caller

open Issuer

section Acts

-- What an act takes from a counter, told from the reply.
def takes (c : Caller H) (issue? : Asked H → Option Issue) (a : Act H) : List Issue :=
  (c.asks? a).toList.filterMap issue?

theorem serves_objects (c : Caller H) (a : Act H) :
    Serves c.objectIds (c.takes Asked.objectIssue? a) (c.act a).objectIds := by
  cases a with
  | ask request hplain =>
      cases request with
      | create template interests =>
          rw [objectIds_create]
          refine .cons ?_ (.nil _)
          have houtcome := create_outcome (c := c) (N := Unit) template interests
          change ∀ name ∈ Asked.named? ⟨_, (perform idle (.create template interests) c).value.1⟩, _
          change Outcome _ _ (perform idle (.create template interests) c).value at houtcome
          revert houtcome
          generalize (perform idle (.create template interests) c).value = out
          intro houtcome name hname
          cases houtcome with
          | response => exact (Option.some.inj hname).symm
          | refused => cases hname
      | _ =>
          rw [c.objectIds_ask hplain fun _ _ => nofun]
          exact .nil _
  | rewire transport => exact .nil _
  | onset op =>
      have hkept : (c.act (.onset op)).objectIds = c.objectIds := c.onset_objectIds op
      rw [hkept]
      exact .nil _
  | close op =>
      have hkept : (c.act (.close op)).objectIds = c.objectIds := c.close_objectIds op
      rw [hkept]
      exact .nil _

theorem serves_filing {l : Ledger H} {a : Asked H} (htrue : l.Truthful a.filing) :
    Serves ⟨l.issued⟩ a.callbackIssue?.toList ⟨(l.file a.filing).issued⟩ := by
  unfold Asked.callbackIssue?
  cases hfiling : a.filing with
  | registered id continuation =>
      rw [hfiling] at htrue
      refine .cons (fun name hname => ?_) (.nil _)
      rw [← Option.some.inj hname]
      exact htrue
  | withdrawn => exact .cons (fun _ hname => nomatch hname) (.nil _)
  | cleared id waiting => exact .nil _
  | nothing => exact .nil _

theorem serves_callbacks {c : Caller H} (hc : c.Fresh) (a : Act H) :
    Serves c.callbackIds (c.takes Asked.callbackIssue? a) (c.act a).callbackIds := by
  cases a with
  | ask request hplain =>
      obtain ⟨htrue, hledger⟩ := files_perform idle hc hplain
      have hserves := serves_filing htrue
      rw [← hledger] at hserves
      exact hserves
  | rewire transport => exact .nil _
  | onset op =>
      have hkept : (c.act (.onset op)).callbackIds = c.callbackIds := c.onset_callbackIds op
      rw [hkept]
      exact .nil _
  | close op =>
      have hkept : (c.act (.close op)).callbackIds = c.callbackIds := (c.close_callbacks op).2
      rw [hkept]
      exact .nil _

theorem serves_conversation {issuer : Caller H → Issuer} {issue? : Asked H → Option Issue}
    (hact : ∀ c a, c.Fresh → Serves (issuer c) (c.takes issue? a) (issuer (c.act a)))
    {c : Caller H} (hc : c.Fresh) (acts : List (Act H)) :
    Serves (issuer c) ((c.conversation acts).filterMap issue?) (issuer (c.follow acts)) := by
  induction acts generalizing c with
  | nil => exact .nil _
  | cons a acts ih =>
      unfold conversation
      rw [List.filterMap_append]
      exact (hact c a hc).append (ih (fresh_steady c a hc))

end Acts

section Runs

-- No two of the objects that were asked for share an identifier, and no two of the continuations.
structure Distinguished (asked : List (Asked H)) (c : Caller H) : Prop where
  objects : Unrepeated {} (asked.filterMap Asked.objectIssue?) c.objectIds
  callbacks : Unrepeated {} (asked.filterMap Asked.callbackIssue?) c.callbackIds

theorem distinguished_follow (settings : CallerSettings) (transport : Transport) (acts : List (Act H)) :
    Distinguished ((start settings transport).conversation acts) ((start settings transport).follow acts) :=
  have hfresh : (start settings transport : Caller H).Fresh := (Reachable.start settings transport).fresh
  { objects := (serves_conversation (fun c a _ => c.serves_objects a) hfresh acts).unrepeated
    callbacks := (serves_conversation (fun _ a hc => serves_callbacks hc a) hfresh acts).unrepeated }

-- An issuer never repeats an identifier, whatever the kinds are: empty, ending in digits, or with the
-- marks of paths. Neither does a caller, whatever is asked of it, whatever its handlers do and whenever
-- its transport fails. The account shows each request with its reply, and changes nothing. Any acts
-- will do, so it does not matter what handlers remember.
theorem identifiers_never_repeat :
    (∀ (issuer : Issuer) (kinds : List String), (issuer.issueAll kinds).1.Nodup) ∧
    (∀ (settings : CallerSettings) (transport : Transport) (calls : List (Call H N)),
      let told := recount calls (start settings transport)
      let lived := lead calls (start settings transport)
      (told.value = lived.value ∧ echo told.output = acts lived.output) ∧
      Distinguished (askedIn told.output) lived.value.2) ∧
    ∀ (settings : CallerSettings) (transport : Transport) (acts : List (Act H)),
      Distinguished ((start settings transport).conversation acts)
        ((start settings transport).follow acts) := by
  refine ⟨nodup_issueAll, fun settings transport calls => ?_, distinguished_follow⟩
  intro told lived
  have hechoes := recount_recounts calls (start settings transport)
  obtain ⟨acts, hstate, hasked⟩ := recount_conversation calls (start settings transport)
  refine ⟨hechoes, ?_⟩
  change Distinguished (askedIn (recount calls (start settings transport)).output)
    (lead calls (start settings transport)).value.2
  rw [← hechoes.1, hstate, hasked]
  exact distinguished_follow settings transport acts

-- A kind that looks like another one with its number, and a creation that cannot be sent.
example :
    let calm : Unit → Occasion → Reaction Unit Unit := fun _ _ => .done
    let ask (request : Request Unit) : Call Unit Unit := ⟨calm, 0, request⟩
    let told := recount [ask (.create { prefab := some "Ball" } []),
      ask (.rewire { fault := some "down" }), ask (.create { prefab := some "a_1" } []),
      ask (.rewire {}), ask (.create { prefab := some "a" } [])] (start {} {})
    (askedIn told.output).filterMap Asked.objectIssue? =
      [⟨"Ball", some "Ball_0"⟩, ⟨"a_1", none⟩, ⟨"a", some "a_2"⟩] := by decide +kernel

end Runs

end Caller

end SceneLink
