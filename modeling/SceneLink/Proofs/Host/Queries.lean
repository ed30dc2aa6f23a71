import SceneLink.Proofs.Host.Refusal
import SceneLink.Proofs.Operation.Payload
import SceneLink.Proofs.World.Calls

namespace SceneLink.Host

open Procedure

variable {h : Host}

theorem send_value_of_ready (hh : h.Ready) (op : Operation) :
    (send op h).value = (.ok (), { h with outbox := { h.outbox.push op with scheduled := true } }) := by
  unfold send
  rw [onPart_value, mapError_value, Outbox.send_value_of_started hh, Outbox.posted, if_pos (by exact hh)]
  rfl

theorem requireObject_of_get? {id : String} {object : Handle} (hid : h.world.registry.get? id = some object) :
    h.requireObject id = .ok object := by
  unfold requireObject
  rw [hid]

def answered (h : Host) (request : QueryRequest) (results : Dict String Json) : Host :=
  match request.callbackId with
  | some callbackId =>
    let reply := Operation.callback callbackId (.record results)
    { h with outbox := { h.outbox with pending := h.outbox.pending ++ [reply.text], scheduled := true } }
  | none => h

theorem query_value (hh : h.Ready) {id : String} {object : Handle}
    (hid : h.world.registry.get? id = some object) (request : QueryRequest) :
    (query id request h).value =
      (.ok (), h.answered request (h.world.query (.object object) request.query).value) := by
  unfold query answered
  rw [bind_value, get_value]
  dsimp only
  rw [bind_value, ofExcept_value, requireObject_of_get? hid]
  dsimp only
  rw [bind_value, log_value]
  dsimp only
  cases request.callbackId with
  | none => rfl
  | some callbackId => exact send_value_of_ready hh _

-- A query of a registered object succeeds, and leaves the host as it was but for one callback, if it asks for
-- one. The results are those of a run that calls every method on its way, which gives the scene back; there is one
-- for each path that such a run resolves from the scene as it is, by itself.
theorem query_reads_only (hh : h.Reachable) {id : String} {object : Handle}
    (hid : h.world.registry.get? id = some object) (request : QueryRequest) :
    ∃ results : Dict String Json,
      (query id request h).value = (.ok (), h.answered request results) ∧
      (∀ op : Operation, op.event = .query → nonEmpty? op.id = some id →
        op.payload QueryRequest.ofJson? = .ok request →
          (apply op h).value = (.ok (), h.answered request results)) ∧
      (h.world.visitQuery (.object object) request.query).run h.world.scene = (results, h.world.scene) ∧
      results.keys.Sublist request.query.keys ∧
      ∀ name json, (name, json) ∈ results ↔ ∃ path node, (name, path) ∈ request.query ∧
        (h.world.visit (.object object) path).run h.world.scene = (.ok node, h.world.scene) ∧
        json = h.world.registry.toJson node := by
  have hvalue := query_value hh.ready hid request
  refine ⟨_, hvalue, fun op hevent hop hrequest => ?_, World.visitQuery_run _ _ _, World.keys_query _ _ _,
    fun name json => ?_⟩
  · have happly := apply_checked (h := h) op QueryRequest.ofJson? query (by
      unfold apply
      rw [hevent])
    rw [happly, hop, hrequest]
    exact hvalue
  · simp only [World.visit_eq_ok]
    exact World.mem_query

-- Two methods, one of them called from the text of a step, and one that fails without arguments.
section Methods

def nestedCount : Path :=
  let text := "\x7b\"_path_\":\"method:GetChildCount\"\x7d"
  ⟨"json:" ++ text ++ "!", [{ kind := .literal .json, value := text, excited := true }]⟩

def methods : QueryRequest where
  query := [
    ("active", ⟨"method:SetActive", [{ kind := .method, value := "SetActive" }]⟩),
    ("count", ⟨"method:GetChildCount", [{ kind := .method, value := "GetChildCount" }]⟩),
    ("nested", nestedCount)]
  callbackId := some "q1"

theorem methods_parsed : Path.AllParsed methods.query where
  sorted := by decide
  parsed := by
    simp only [methods, List.forall_mem_cons]
    exact ⟨rfl, rfl, rfl, List.forall_mem_nil _⟩

theorem query_reads_only_methods :
    inhabited.world.registry.get? "c" = some 0 ∧ ∃ results : Dict String Json,
      results.mapValues Json.text = [("count", "0"), ("nested", "0")] ∧
      (query "c" methods inhabited).value = (.ok (), inhabited.answered methods results) ∧
      (apply (Operation.query "c" methods).wire inhabited).value = (.ok (), inhabited.answered methods results) := by
  have hreach : inhabited.Reachable := .perform (.start _ _ _) _
  have hobject : inhabited.world.registry.get? "c" = some 0 := by decide +kernel
  obtain ⟨results, hvalue, happly, hrun, -⟩ := query_reads_only hreach hobject methods
  have htexts : Dict.mapValues Json.text
      ((inhabited.world.visitQuery (.object 0) methods.query).run inhabited.world.scene).1 =
      [("count", "0"), ("nested", "0")] := by decide +kernel
  rw [hrun] at htexts
  exact ⟨hobject, results, htexts, hvalue, happly _ rfl rfl (Operation.payload_query "c" methods_parsed "q1")⟩

end Methods

end SceneLink.Host
