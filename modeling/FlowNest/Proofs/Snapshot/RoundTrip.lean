import FlowNest.Proofs.Json.Soundness
import FlowNest.Proofs.Json.Values
import FlowNest.Proofs.Snapshot.Numbers
import FlowNest.Snapshot

/-!
# FlowNest — snapshots, there and back

A graph that is encoded and decoded comes back as far as a snapshot keeps it, if its JSON
nests no deeper than a text may and its numbers are such as JSON has. Whatever can be decoded
comes back whole from then on. Both rest on what is asked of the text layer: that it reads
the values that it writes, and reads no others than can be written.

* `TextLayer.Faithful` — what is asked of a text layer, and `TextLayer.faithful_inLines`, which
  grants it for the one in lines;
* `decode_encode`      — what comes back of a graph;
* `sound_of_decode`    — what was decoded can be encoded;
* `round_trips`        — there and back, once and again.
-/

namespace FlowNest

open Json (Draft deepest)
open Json.Draft (ofJson)

/-- A text layer reads back every value that it writes, if it nests no deeper than a text may
and its numbers are such as JSON has. Nothing that nests deeper and no other numbers come from
a text, whatever its bytes are. -/
structure TextLayer.Faithful [TextLayer] : Prop where
  readsBack : ∀ j : Json, (ofJson j).Sound deepest →
    TextLayer.read (TextLayer.write j).toUTF8.toList = ⟨ofJson j, true⟩
  sound : ∀ bytes, (TextLayer.read bytes).draft.Sound deepest

theorem TextLayer.faithful_inLines : TextLayer.Faithful where
  readsBack _ hSound := Json.ofBytes_pretty hSound.exact hSound.depth
  sound := Json.Reading.ofBytes_sound

namespace Snapshot

/-- What is read from a text is read from its draft. -/
theorem read_of_decode [TextLayer] {α : Type} {read : Reader α} {bytes : List UInt8} {a : α}
    (h : decode read bytes = .ok a) : read (TextLayer.read bytes).draft = .ok a := by
  obtain ⟨b, hRead, h⟩ := bind_eq_ok.mp h
  split at h
  · cases h
    exact hRead
  · cases h

/-- What an encoded graph comes back as. -/
theorem decode_encode [TextLayer] (hText : TextLayer.Faithful) {g : FlowGraph}
    (hSound : (ofJson g.toJson).Sound deepest) :
    decode readGraph (encode g).toUTF8.toList = .ok g.kept := by
  unfold decode encode
  rw [hText.readsBack _ hSound]
  show (readGraph (ofJson g.toJson) >>= fun a => if true then .ok a else .error .malformed) = _
  rw [readGraph_toJson]
  rfl

/-- A graph that was decoded nests no deeper than its text, and has such numbers. -/
theorem sound_of_decode [TextLayer] (hText : TextLayer.Faithful) {bytes : List UInt8}
    {g : FlowGraph} (h : decode readGraph bytes = .ok g) :
    g.kept = g ∧ (ofJson g.toJson).Sound deepest := by
  obtain ⟨hKept, hWritten⟩ := settles_readGraph _ g (read_of_decode h)
  obtain ⟨hExact, hDepth⟩ := hText.sound bytes
  exact ⟨hKept, hWritten.exact hExact, Nat.le_trans hWritten.depth hDepth⟩

/-- Through a faithful text layer, what is encoded comes back as far as it is kept, and what
was decoded comes back as it is, with checked settings and positions at every node. -/
theorem round_trips [TextLayer] (hText : TextLayer.Faithful) :
    (∀ g : FlowGraph, g.HasExactDefaults → (ofJson g.toJson).depth ≤ deepest →
      decode readGraph (encode g).toUTF8.toList = .ok g.kept) ∧
    ∀ (bytes : List UInt8) (h : FlowGraph), decode readGraph bytes = .ok h →
      decode readGraph (encode h).toUTF8.toList = .ok h ∧
      ∀ n ∈ h.allNodes, n.core.control.pauseBufferSize ≠ 0 ∧
        ∀ v ∈ [n.core.position.x, n.core.position.y], v.isFinite = true ∧ ¬v < 0 := by
  refine ⟨fun g hDefaults hDepth => decode_encode hText ⟨g.exact_toJson hDefaults, hDepth⟩,
    fun bytes h hDecode => ?_⟩
  obtain ⟨hKept, hSound⟩ := sound_of_decode hText hDecode
  -- settings and positions bring their checks with them
  refine ⟨?_, fun n _ => ⟨n.core.control.pauseBufferSize_ne_zero, ?_⟩⟩
  · rw [decode_encode hText hSound, hKept]
  · have hAxes := n.core.position.onCanvas
    unfold onAxis at hAxes
    simp only [Bool.and_eq_true, Bool.not_eq_true', decide_eq_false_iff_not] at hAxes
    simp only [List.forall_mem_cons]
    exact ⟨hAxes.1, hAxes.2, List.forall_mem_nil _⟩

/-- A tank with a valve inside: one input of it is half open if nobody says so, the default of
the other is null, and it is about to run. -/
def dosing : FlowGraph :=
  { FlowGraph.of "dosing" "Dosing" "1" with
    root.nodes := [.graph
      { core := NodeCore.of "tank" "Tank" Container.kind .origin
        boundary := .empty
        inside.nodes := [.code { CodeNode.of "valve" "Valve" "Stage" .origin with
          inputs := [{ Port.of "valve" "opening" .input .any with
              defaultValue := some (.ofJson (.float 0.5)) },
            { Port.of "valve" "limit" .input .any with defaultValue := some (.ofJson .null) }]
          logic := some ⟨1, id⟩
          handle := some "run" }]
        inside.connections := [] }]
    root.connections := [] }

/-- In lines, the tank comes back without what the valve has during a run, and then as it is. -/
theorem dosing_round_trips :
    dosing.HasExactDefaults ∧ (ofJson dosing.toJson).depth ≤ deepest ∧
      decode readGraph (encode dosing).toUTF8.toList = .ok dosing.kept ∧
      decode readGraph (encode dosing.kept).toUTF8.toList = .ok dosing.kept := by
  have hDefaults : dosing.HasExactDefaults := by decide +kernel
  have hDepth : (ofJson dosing.toJson).depth ≤ deepest := by decide +kernel
  obtain ⟨hThere, hBack⟩ := round_trips TextLayer.faithful_inLines
  have hDecoded := hThere dosing hDefaults hDepth
  exact ⟨hDefaults, hDepth, hDecoded, (hBack _ _ hDecoded).1⟩

end Snapshot

end FlowNest
