import CkbDebugger.GdbRemote.SelfDelimiting

/-!
# What a packet is answered with

A payload whose request the handler answers is answered with one frame, and the handler is left
in the state that the request has brought it to.
-/
namespace GdbRemote

open Nom

variable {σ : Type}

/-- A frame around a payload. -/
def framed (payload : Bytes) : Bytes :=
  ascii "$" ++ payload ++ ascii "#" ++ lowerHex2 (computeChecksumIncremental payload 0).toNat

/-- The packet is served to its end, and one frame is written that holds the payload. -/
def Answered (h : Handler σ) (server : Server σ) (packet payload : Bytes) (after : Server σ) : Prop :=
  (∃ noAck, (handlePacket h packet).runOn server = (some noAck, after)) ∧
    after.output = server.output ++ framed payload

theorem answered_of_response {h : Handler σ} {server middle : Server σ} {packet rest : Bytes} {cmd : Command}
    {response : Response} (parsed : command packet = .done rest cmd)
    (ran : (handleCommand h cmd).runOn server = (some response, middle)) :
    ∃ after, Answered h server packet response.payload after ∧ after.handler = middle.handler ∧
      after.calls = middle.calls := by
  have silent : middle.output = server.output := by
    simpa only [ran] using handleCommand_silent h cmd server
  refine ⟨{ middle with output := middle.output ++ writeResponse response },
    ⟨⟨cmd = .query .startNoAckMode, ?_⟩, ?_⟩, rfl, rfl⟩
  · simp only [handlePacket, parsed, runOn_bind, ran, runOn_write, runOn_pure]
  · rw [silent, writeResponse_eq, framed]

theorem runOn_call_of_answer {h : Handler σ} {server : Server σ} {call : HandlerCall} {result : call.Result}
    {state : σ} (answers : h call server.handler = some (result, state)) :
    (h.call call).runOn server = (some result, ⟨state, server.calls ++ [call], server.output⟩) := by
  rw [runOn_call, answers]

end GdbRemote
