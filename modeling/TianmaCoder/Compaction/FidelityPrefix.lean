import Mathlib.Data.List.Induction
import TianmaCoder.Tokens.Estimate

/-!
# The truncated prefix of a summarization retry

When the provider rejects the replayed prefix as too long, the fidelity summarizer retries with
the second half of it behind a marker. The cut depends on the number of messages alone.

## Main definitions

* `truncatePrefix`, `rounds` — one retry round, and a sequence of them.
* `PairedFrom` — every tool result behind a cut has its call between the cut and itself.
* `Truncated`, `Shrinks` — what a retry is to achieve.

## Main results

* `truncatePrefix_eq` — the shape of a round.
* `truncated_iff` — when the rounds achieve it.
-/

namespace TianmaCoder

namespace Fidelity

/-- Marker injected at each truncation cut point. -/
def TRUNCATION_MARKER : String := "[earlier conversation truncated for compaction retry]"

def roleOf (message : Json) : String := (Json.str? (message.get? "role")).getD ""

/-- The user message at a cut, under a fresh id. -/
def marker (id : String) : Json :=
  .obj [("content", .arr [.obj [("type", .str "text"), ("text", .str TRUNCATION_MARKER)]]),
    ("source", .obj [("kind", .str "user")]), ("role", .str "user"), ("id", .str id)]

/-- A leading system message. -/
def headOf (messages : List Json) : List Json :=
  match messages with
  | message :: _ => if roleOf message = "system" then [message] else []
  | [] => []

/-- Truncate the replayed prefix for one retry round. -/
def truncatePrefix (id : String) (messages : List Json) : List Json :=
  if messages.length ≤ 1 then messages
  else
    let head := headOf messages
    let rest := messages.drop head.length
    let keep := max 1 (rest.length / 2)
    let tail := rest.drop (rest.length - keep)
    head ++ [marker id] ++ tail

/-- Retry rounds, each under the id of its marker. -/
def rounds (ids : List String) (messages : List Json) : List Json :=
  ids.foldl (fun messages id => truncatePrefix id messages) messages

/-! ## What a retry is to achieve -/

/-- The message has the call that a tool result answers. -/
def HasCall (message result : Json) : Prop :=
  roleOf message = "assistant" ∧ ∃ block ∈ contentOf message,
    block.get? "type" = some (.str "tool-call") ∧ block.get? "id" = result.get? "toolCallId"

/-- Every tool result from a position on comes after an assistant message, not before that
position, with its call. -/
def PairedFrom (cut : ℕ) (messages : List Json) : Prop :=
  ∀ i result, cut ≤ i → messages[i]? = some result → roleOf result = "tool" →
    ∃ j message, cut ≤ j ∧ j < i ∧ messages[j]? = some message ∧ HasCall message result

/-- Every tool result comes after its call. -/
def Paired (messages : List Json) : Prop := PairedFrom 0 messages

/-- What a round is to make of a prefix. -/
structure Truncated (id : String) (messages result : List Json) : Prop where
  shorter : result.length < messages.length
  kept : ∃ tail, tail <:+ messages ∧ result = headOf messages ++ marker id :: tail
  paired : Paired result

/-- Every further round shortens the prefix until the head, a marker and the last message
remain. -/
def Shrinks (messages : List Json) : Prop :=
  ∀ ids id, (rounds (ids ++ [id]) messages).length < (rounds ids messages).length ∨
    ∃ id' last, rounds ids messages = headOf messages ++ [marker id', last] ∧
      messages.getLast? = some last

/-! ## The shape of a round -/

/-- The number of messages a round keeps besides the head and the marker. -/
def keepOf (messages : List Json) : ℕ := max 1 ((messages.length - (headOf messages).length) / 2)

/-- The position from which a round keeps the messages. -/
def cutOf (messages : List Json) : ℕ := messages.length - keepOf messages

variable {messages : List Json} {id : String}

theorem roleOf_marker (id : String) : roleOf (marker id) = "user" := rfl

theorem headOf_length_le (messages : List Json) : (headOf messages).length ≤ 1 := by
  unfold headOf
  split
  · split <;> simp
  · simp

theorem headOf_append (rest : List Json) :
    headOf (headOf messages ++ marker id :: rest) = headOf messages := by
  cases messages with
  | nil => rfl
  | cons message messages =>
    by_cases hrole : roleOf message = "system"
    · simp [headOf, hrole]
    · have hmarker : roleOf (marker id) ≠ "system" := by
        rw [roleOf_marker]
        decide
      simp [headOf, hrole, hmarker]

/-- One round keeps the head, puts a marker and goes on at the cut. -/
theorem truncatePrefix_eq (hlong : 1 < messages.length) :
    truncatePrefix id messages = headOf messages ++ marker id :: messages.drop (cutOf messages) := by
  have hhead := headOf_length_le messages
  have hlength : (messages.drop (headOf messages).length).length
      = messages.length - (headOf messages).length := List.length_drop
  have hcut : (headOf messages).length
      + (messages.length - (headOf messages).length - keepOf messages) = cutOf messages := by
    unfold cutOf keepOf
    omega
  rw [truncatePrefix, if_neg (Nat.not_le.mpr hlong)]
  simp only [hlength, List.drop_drop]
  change headOf messages ++ [marker id]
    ++ messages.drop ((headOf messages).length
      + (messages.length - (headOf messages).length - keepOf messages)) = _
  rw [hcut, List.append_assoc]
  rfl

theorem length_truncatePrefix (hlong : 1 < messages.length) :
    (truncatePrefix id messages).length = (headOf messages).length + 1 + keepOf messages := by
  have hhead := headOf_length_le messages
  rw [truncatePrefix_eq hlong, List.length_append, List.length_cons, List.length_drop]
  unfold cutOf keepOf
  omega

/-! ## Pairing -/

theorem pairedFrom_iff_drop (cut : ℕ) : PairedFrom cut messages ↔ Paired (messages.drop cut) := by
  constructor
  · intro h i result _ hresult hrole
    rw [List.getElem?_drop] at hresult
    obtain ⟨j, message, hcut, hlt, hmessage, hcall⟩ := h (cut + i) result (by omega) hresult hrole
    refine ⟨j - cut, message, by omega, by omega, ?_, hcall⟩
    rw [List.getElem?_drop]
    have hj : cut + (j - cut) = j := by omega
    rw [hj]
    exact hmessage
  · intro h i result hcut hresult hrole
    have hi : cut + (i - cut) = i := by omega
    obtain ⟨j, message, _, hlt, hmessage, hcall⟩ :=
      h (i - cut) result (by omega) (by rw [List.getElem?_drop, hi]; exact hresult) hrole
    rw [List.getElem?_drop] at hmessage
    exact ⟨cut + j, message, by omega, by omega, hmessage, hcall⟩

/-- A message that is neither a call nor a result does not change the pairing behind it. -/
theorem paired_cons {message : Json} (hassistant : roleOf message ≠ "assistant")
    (htool : roleOf message ≠ "tool") : Paired (message :: messages) ↔ Paired messages := by
  have hdrop : PairedFrom 1 (message :: messages) ↔ Paired ((message :: messages).drop 1) :=
    pairedFrom_iff_drop 1
  rw [List.drop_succ_cons, List.drop_zero] at hdrop
  rw [← hdrop]
  constructor
  · intro h i result hi hresult hrole
    obtain ⟨j, call, _, hlt, hcall, hhas⟩ := h i result (by omega) hresult hrole
    refine ⟨j, call, ?_, hlt, hcall, hhas⟩
    by_contra hzero
    have hj : j = 0 := by omega
    rw [hj, List.getElem?_cons_zero, Option.some.injEq] at hcall
    exact hassistant (hcall ▸ hhas.1)
  · intro h i result _ hresult hrole
    have hi : 1 ≤ i := by
      by_contra hzero
      have hi : i = 0 := by omega
      rw [hi, List.getElem?_cons_zero, Option.some.injEq] at hresult
      exact htool (hresult ▸ hrole)
    obtain ⟨j, call, _, hlt, hcall, hhas⟩ := h i result hi hresult hrole
    exact ⟨j, call, by omega, hlt, hcall, hhas⟩

theorem paired_of_no_tool (h : ∀ message ∈ messages, roleOf message ≠ "tool") : Paired messages :=
  fun _ result _ hresult hrole => absurd hrole (h result (List.mem_of_getElem? hresult))

theorem paired_truncated (rest : List Json) :
    Paired (headOf messages ++ marker id :: rest) ↔ Paired rest := by
  have hmarker : Paired (marker id :: rest) ↔ Paired rest := by
    apply paired_cons
    all_goals
      rw [roleOf_marker]
      decide
  cases messages with
  | nil => exact hmarker
  | cons message messages =>
    by_cases hrole : roleOf message = "system"
    · have hhead : headOf (message :: messages) = [message] := by simp [headOf, hrole]
      rw [hhead, List.singleton_append, paired_cons _ _, hmarker]
      all_goals
        rw [hrole]
        decide
    · have hhead : headOf (message :: messages) = [] := by simp [headOf, hrole]
      rw [hhead]
      exact hmarker

/-! ## Rounds -/

/-- What rounds have made of a prefix: the head, a marker and the last messages. -/
structure Reached (messages : List Json) (id : String) (keep : ℕ) (reached : List Json) : Prop where
  pos : 1 ≤ keep
  le : keep ≤ messages.length
  shape : reached = headOf messages ++ marker id :: messages.drop (messages.length - keep)

theorem reached_truncatePrefix (hlong : 1 < messages.length) :
    Reached messages id (keepOf messages) (truncatePrefix id messages) where
  pos := by unfold keepOf; omega
  le := by
    unfold keepOf
    omega
  shape := truncatePrefix_eq hlong

/-- A further round keeps half of the messages and the marker before it. -/
theorem Reached.truncatePrefix {keep : ℕ} (id' : String) {reached : List Json}
    (h : Reached messages id keep reached) :
    Reached messages id' (max 1 ((keep + 1) / 2)) (truncatePrefix id' reached) := by
  have hlength : reached.length = (headOf messages).length + 1 + keep := by
    have hle := h.le
    rw [h.shape, List.length_append, List.length_cons, List.length_drop]
    omega
  have hpos := h.pos
  have hle := h.le
  have hhead : headOf reached = headOf messages := by
    rw [h.shape]
    exact headOf_append _
  have hkeep : keepOf reached = max 1 ((keep + 1) / 2) := by
    rw [keepOf, hhead, hlength]
    congr 2
    omega
  refine ⟨by omega, by omega, ?_⟩
  have hcut : cutOf reached
      = (headOf messages).length + (1 + (keep - max 1 ((keep + 1) / 2))) := by
    rw [cutOf, hkeep, hlength]
    omega
  rw [truncatePrefix_eq (by omega), hhead, hcut, ← List.drop_drop]
  congr 2
  rw [h.shape, List.drop_left, Nat.add_comm 1, List.drop_succ_cons, List.drop_drop]
  congr 1
  omega

theorem rounds_snoc (ids : List String) (id : String) (messages : List Json) :
    rounds (ids ++ [id]) messages = truncatePrefix id (rounds ids messages) := by
  rw [rounds, List.foldl_append]
  rfl

theorem reached_rounds (hlong : 1 < messages.length) (ids : List String) (id : String) :
    ∃ keep, Reached messages id keep (rounds (ids ++ [id]) messages) := by
  induction ids using List.reverseRecOn generalizing id with
  | nil => exact ⟨_, reached_truncatePrefix hlong⟩
  | append_singleton ids last ih =>
    obtain ⟨keep, hreached⟩ := ih last
    rw [rounds_snoc]
    exact ⟨_, hreached.truncatePrefix _⟩

theorem Reached.shrinks {keep : ℕ} {reached : List Json} (h : Reached messages id keep reached)
    (id' : String) :
    (Fidelity.truncatePrefix id' reached).length < reached.length ∨
      ∃ last, reached = headOf messages ++ [marker id, last] ∧ messages.getLast? = some last := by
  have hnext := h.truncatePrefix id'
  have hpos := h.pos
  have hle := h.le
  by_cases hone : keep = 1
  · right
    obtain ⟨front, last, hlast⟩ : ∃ front last, messages = front ++ [last] := by
      have hne : messages ≠ [] := by
        rintro rfl
        rw [List.length_nil] at hle
        omega
      exact ⟨_, _, (List.dropLast_append_getLast hne).symm⟩
    refine ⟨last, ?_, by simp [hlast]⟩
    rw [h.shape, hone]
    congr 2
    rw [hlast, List.length_append, List.length_singleton, Nat.add_sub_cancel, List.drop_left]
  · left
    have hnextLe := hnext.le
    rw [hnext.shape, h.shape, List.length_append, List.length_append, List.length_cons,
      List.length_cons, List.length_drop, List.length_drop]
    omega

/-- A retry achieves its purpose exactly when more than two messages follow the head and no tool
exchange lies across the cut. -/
theorem truncated_iff (hlong : 1 < messages.length) :
    (∀ id, Truncated id messages (truncatePrefix id messages)) ∧ Shrinks messages ↔
      2 < messages.length - (headOf messages).length ∧ PairedFrom (cutOf messages) messages := by
  constructor
  · rintro ⟨htruncated, -⟩
    have hround := htruncated ""
    constructor
    · have hshorter := hround.shorter
      have hhead := headOf_length_le messages
      rw [length_truncatePrefix hlong] at hshorter
      unfold keepOf at hshorter
      omega
    · rw [pairedFrom_iff_drop]
      have hresult := hround.paired
      rw [truncatePrefix_eq hlong, paired_truncated] at hresult
      exact hresult
  · rintro ⟨hmore, hcut⟩
    have hshorter : ∀ id, (truncatePrefix id messages).length < messages.length := by
      intro id
      rw [length_truncatePrefix hlong]
      unfold keepOf
      omega
    constructor
    · intro id
      refine ⟨hshorter id, ⟨_, List.drop_suffix _ _, truncatePrefix_eq hlong⟩, ?_⟩
      rw [truncatePrefix_eq hlong, paired_truncated, ← pairedFrom_iff_drop]
      exact hcut
    · intro ids id
      cases ids using List.reverseRecOn with
      | nil => exact Or.inl (hshorter id)
      | append_singleton ids last =>
        obtain ⟨keep, hreached⟩ := reached_rounds hlong ids last
        rw [rounds_snoc (ids ++ [last])]
        rcases hreached.shrinks id with hless | ⟨final, hshape, hlast⟩
        · exact Or.inl hless
        · exact Or.inr ⟨last, final, hshape, hlast⟩

/-! ## Where a round fails -/

def userText (id text : String) : Json :=
  .obj [("id", .str id), ("role", .str "user"),
    ("content", .arr [.obj [("type", .str "text"), ("text", .str text)]])]

/-- A question, a tool exchange and a second question. -/
def exchange : List Json :=
  [userText "m1" "list the files",
    .obj [("id", .str "m2"), ("role", .str "assistant"),
      ("content", .arr [.obj [("type", .str "tool-call"), ("id", .str "call-1")]])],
    .obj [("id", .str "m3"), ("role", .str "tool"), ("toolCallId", .str "call-1"),
      ("content", .arr [])],
    userText "m4" "and the sizes"]

/-- The round of two messages is no shorter, and the round of an exchange leaves its result
without the call. -/
theorem truncatePrefix_fails :
    (Paired [userText "m1" "a", userText "m2" "b"] ∧
      ¬∀ id, Truncated id [userText "m1" "a", userText "m2" "b"]
        (truncatePrefix id [userText "m1" "a", userText "m2" "b"])) ∧
    (Paired exchange ∧ ¬∀ id, Truncated id exchange (truncatePrefix id exchange)) := by
  refine ⟨⟨?_, ?_⟩, ?_, ?_⟩
  · refine paired_of_no_tool fun message hmessage => ?_
    simp only [List.mem_cons, List.not_mem_nil, or_false] at hmessage
    rcases hmessage with rfl | rfl <;> decide
  · intro h
    have hshorter := (h "").shorter
    revert hshorter
    decide
  · intro i result _ hresult hrole
    by_cases hi : i = 2
    · subst hi
      cases hresult
      exact ⟨1, _, by omega, by omega, rfl, rfl, _, List.mem_singleton_self _, rfl, rfl⟩
    · have hother : ∀ i < 4, i ≠ 2 → ∀ message ∈ exchange[i]?, roleOf message ≠ "tool" := by decide
      have hlt := (List.getElem?_eq_some_iff.mp hresult).1
      exact absurd hrole (hother i hlt hi result hresult)
  · intro h
    have hpaired := (h "").paired
    rw [truncatePrefix_eq (by decide), paired_truncated] at hpaired
    obtain ⟨j, _, _, hlt, -, -⟩ := hpaired 0 _ (Nat.le_refl 0) rfl rfl
    omega

/-- Two messages. -/
theorem truncated_iff_two :
    (∀ id, Truncated id [userText "m1" "a", userText "m2" "b"]
        (truncatePrefix id [userText "m1" "a", userText "m2" "b"])) ∧
      Shrinks [userText "m1" "a", userText "m2" "b"] ↔
      2 < 2 - (headOf [userText "m1" "a", userText "m2" "b"]).length ∧
        PairedFrom (cutOf [userText "m1" "a", userText "m2" "b"])
          [userText "m1" "a", userText "m2" "b"] :=
  truncated_iff (by decide)

end Fidelity

end TianmaCoder
