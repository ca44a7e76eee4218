import Mathlib.Data.List.Basic
import Mathlib.Data.Nat.Notation

/-!
# Decoders that are fed in chunks

A decoder takes one message after the other off what is buffered, until it must wait for more or
fails. A push appends a chunk and returns the messages that became complete; when it fails, the
messages of that push are lost. Whether the cut into chunks shows is a matter of the bytes: it does
not exactly when nothing precedes a failure and no part of what is still to be decoded fails where
the whole does not.

## Main definitions

* `Decoder` — one step on what is buffered; `Decoder.decode` — all steps.
* `Decoder.push`, `Decoder.feed` — feeding it in chunks.
* `Decoder.Reads` — some messages are taken off, and the rest stays.

## Main results

* `Decoder.feed_eq_decode_iff` — the streams whose cuts do not show.
-/

namespace TianmaCoder

variable {M β : Type*}

/-- What one step finds. -/
inductive DecoderStep (M β : Type*) where
  | waiting
  | ready (message : M) (rest : List β)
  | failed

/-- A decoder of one message at a time. A complete message is in front of what follows it, whatever
that is. -/
structure Decoder (M β : Type*) where
  next : List β → DecoderStep M β
  empty : next [] = .waiting
  frame : ∀ {bytes message rest}, next bytes = .ready message rest →
    ∃ front, front ≠ [] ∧ bytes = front ++ rest ∧
      ∀ other, next (front ++ other) = .ready message other

namespace Decoder

variable (d : Decoder M β)

/-- Take messages off while there are some, at most `fuel` times: the messages, and what is left
unless the decoder fails. -/
def drain : ℕ → List β → List M × Option (List β)
  | 0, bytes => ([], some bytes)
  | fuel + 1, bytes =>
    match d.next bytes with
    | .waiting => ([], some bytes)
    | .failed => ([], none)
    | .ready message rest => (message :: (drain fuel rest).1, (drain fuel rest).2)

/-- Take off every message. -/
def decode (bytes : List β) : List M × Option (List β) := d.drain (bytes.length + 1) bytes

/-- Append a chunk and take off what is complete; a failure loses the messages before it. -/
def push (buffer chunk : List β) : Option (List M × List β) :=
  match d.decode (buffer ++ chunk) with
  | (messages, some rest) => some (messages, rest)
  | (_, none) => none

/-- Feed chunks until the decoder fails: the messages delivered, and what is left. -/
def feed : List β → List (List β) → List M × Option (List β)
  | buffer, [] => ([], some buffer)
  | buffer, chunk :: chunks =>
    match d.push buffer chunk with
    | none => ([], none)
    | some (messages, rest) => (messages ++ (feed rest chunks).1, (feed rest chunks).2)

/-- Some messages are taken off the front, and the rest stays. -/
inductive Reads : List β → List M → List β → Prop
  | done {bytes} : Reads bytes [] bytes
  | ready {bytes message rest messages left} : d.next bytes = .ready message rest →
      Reads rest messages left → Reads bytes (message :: messages) left

variable {d} {bytes left : List β} {messages : List M}

/-! ## Reading -/

/-- What is read lies in front, whatever follows it. -/
theorem Reads.front (h : d.Reads bytes messages left) :
    ∃ gone, bytes = gone ++ left ∧ ∀ other, d.Reads (gone ++ other) messages other := by
  induction h with
  | done => exact ⟨[], rfl, fun _ => .done⟩
  | ready hnext _ ih =>
    obtain ⟨front, -, hbytes, hfront⟩ := d.frame hnext
    obtain ⟨gone, hrest, hgone⟩ := ih
    refine ⟨front ++ gone, by rw [hbytes, hrest, List.append_assoc], ?_⟩
    intro other
    rw [List.append_assoc]
    exact .ready (hfront _) (hgone other)

theorem Reads.append (h : d.Reads bytes messages left) (more : List β) :
    d.Reads (bytes ++ more) messages (left ++ more) := by
  obtain ⟨gone, rfl, hgone⟩ := h.front
  rw [List.append_assoc]
  exact hgone _

theorem Reads.trans (h : d.Reads bytes messages left) {messages' : List M} {left' : List β}
    (h' : d.Reads left messages' left') : d.Reads bytes (messages ++ messages') left' := by
  induction h with
  | done => exact h'
  | ready hnext _ ih => exact .ready hnext (ih h')

/-- A message shortens what is left. -/
theorem length_rest {message : M} {rest : List β} (h : d.next bytes = .ready message rest) :
    rest.length < bytes.length := by
  obtain ⟨front, hne, rfl, -⟩ := d.frame h
  have hpos := List.length_pos_iff.mpr hne
  rw [List.length_append]
  omega

theorem drain_eq {fuel : ℕ} (h : bytes.length < fuel) : d.drain fuel bytes = d.decode bytes := by
  have hall : ∀ (n fuel fuel' : ℕ) (xs : List β), xs.length ≤ n → xs.length < fuel →
      xs.length < fuel' → d.drain fuel xs = d.drain fuel' xs := by
    intro n
    induction n with
    | zero =>
      intro fuel fuel' xs hn hfuel hfuel'
      obtain ⟨fuel, rfl⟩ : ∃ k, fuel = k + 1 := ⟨fuel - 1, by omega⟩
      obtain ⟨fuel', rfl⟩ : ∃ k, fuel' = k + 1 := ⟨fuel' - 1, by omega⟩
      have hnil : xs = [] := List.length_eq_zero_iff.mp (by omega)
      subst hnil
      simp [drain, d.empty]
    | succ n ih =>
      intro fuel fuel' xs hn hfuel hfuel'
      obtain ⟨fuel, rfl⟩ : ∃ k, fuel = k + 1 := ⟨fuel - 1, by omega⟩
      obtain ⟨fuel', rfl⟩ : ∃ k, fuel' = k + 1 := ⟨fuel' - 1, by omega⟩
      unfold drain
      cases hnext : d.next xs with
      | waiting => rfl
      | failed => rfl
      | ready message rest =>
        have hlt := length_rest hnext
        simp only [ih fuel fuel' rest (by omega) (by omega) (by omega)]
  exact hall bytes.length fuel (bytes.length + 1) bytes (Nat.le_refl _) h (Nat.lt_succ_self _)

theorem decode_waiting (h : d.next bytes = .waiting) : d.decode bytes = ([], some bytes) := by
  simp [decode, drain, h]

theorem decode_failed (h : d.next bytes = .failed) : d.decode bytes = ([], none) := by
  simp [decode, drain, h]

theorem decode_ready {message : M} {rest : List β} (h : d.next bytes = .ready message rest) :
    d.decode bytes = (message :: (d.decode rest).1, (d.decode rest).2) := by
  have hlt := length_rest h
  have hrest : d.drain bytes.length rest = d.decode rest := drain_eq hlt
  unfold decode at hrest ⊢
  conv_lhs => rw [drain, h]
  dsimp only
  rw [hrest]

/-- Decoding goes on behind what is read. -/
theorem Reads.decode (h : d.Reads bytes messages left) :
    d.decode bytes = (messages ++ (d.decode left).1, (d.decode left).2) := by
  induction h with
  | done => rfl
  | ready hnext _ ih => rw [decode_ready hnext, ih]; rfl

/-- Decoding reads messages until it waits or fails. -/
theorem decode_cases (d : Decoder M β) (bytes : List β) :
    ∃ messages left, d.Reads bytes messages left ∧
      (d.next left = .waiting ∧ d.decode bytes = (messages, some left) ∨
        d.next left = .failed ∧ d.decode bytes = (messages, none)) := by
  induction hn : bytes.length using Nat.strongRecOn generalizing bytes with
  | _ n ih =>
    cases hnext : d.next bytes with
    | waiting => exact ⟨[], bytes, .done, .inl ⟨hnext, decode_waiting hnext⟩⟩
    | failed => exact ⟨[], bytes, .done, .inr ⟨hnext, decode_failed hnext⟩⟩
    | ready message rest =>
      obtain ⟨messages, left, hreads, hleft⟩ :=
        ih rest.length (by rw [← hn]; exact length_rest hnext) rest rfl
      refine ⟨message :: messages, left, .ready hnext hreads, ?_⟩
      rw [decode_ready hnext]
      rcases hleft with ⟨hwaiting, hdecode⟩ | ⟨hfailed, hdecode⟩
      · exact .inl ⟨hwaiting, by rw [hdecode]⟩
      · exact .inr ⟨hfailed, by rw [hdecode]⟩

/-! ## Feeding in chunks -/

theorem feed_waiting {buffer : List β} {chunks : List (List β)} (hbuffer : d.next buffer = .waiting)
    (h : d.feed buffer chunks = (messages, some left)) : d.next left = .waiting := by
  induction chunks generalizing buffer messages with
  | nil =>
    cases h
    exact hbuffer
  | cons chunk chunks ih =>
    obtain ⟨_, rest, -, hrest⟩ := d.decode_cases (buffer ++ chunk)
    unfold feed push at h
    rcases hrest with ⟨hwaiting, hdecode⟩ | ⟨-, hdecode⟩
    · simp only [hdecode, Prod.mk.injEq] at h
      exact ih hwaiting (Prod.ext rfl h.2)
    · simp [hdecode] at h

/-- What is decoded does not depend on the chunks, from a buffer that waits. -/
theorem feed_eq_decode {buffer : List β} {chunks : List (List β)}
    (hbuffer : d.next buffer = .waiting)
    (hfirst : ∀ messages left, d.Reads (buffer ++ chunks.flatten) messages left →
      d.next left = .failed → messages = [])
    (hlasting : ∀ messages left front, d.Reads (buffer ++ chunks.flatten) messages left →
      front <+: left → d.next front = .failed → d.next left = .failed) :
    d.feed buffer chunks = d.decode (buffer ++ chunks.flatten) := by
  induction chunks generalizing buffer with
  | nil =>
    rw [List.flatten_nil, List.append_nil, decode_waiting hbuffer]
    rfl
  | cons chunk chunks ih =>
    rw [List.flatten_cons, ← List.append_assoc] at hfirst hlasting ⊢
    obtain ⟨messages, left, hreads, hleft⟩ := d.decode_cases (buffer ++ chunk)
    have hmore := hreads.append chunks.flatten
    unfold feed push
    rcases hleft with ⟨hwaiting, hdecode⟩ | ⟨hfailed, hdecode⟩
    · simp only [hdecode]
      rw [hmore.decode, ih hwaiting]
      · intro messages' left' hreads' hfailed'
        have hnil := hfirst _ _ (hmore.trans hreads') hfailed'
        exact (List.append_eq_nil_iff.mp hnil).2
      · intro messages' left' front hreads' hfront hfailed'
        exact hlasting _ _ front (hmore.trans hreads') hfront hfailed'
    · simp only [hdecode]
      have hwhole := hlasting _ _ left hmore (List.prefix_append _ _) hfailed
      have hnil := hfirst _ _ hmore hwhole
      subst hnil
      rw [hmore.decode, decode_failed hwhole]
      rfl

/-- The cut of a stream into chunks does not show exactly when no message precedes a failure, and
no part of what is still to be decoded fails where the whole does not. -/
theorem feed_eq_decode_iff :
    (∀ chunks : List (List β), chunks.flatten = bytes → d.feed [] chunks = d.decode bytes) ↔
      (∀ messages left, d.Reads bytes messages left → d.next left = .failed → messages = []) ∧
        ∀ messages left front, d.Reads bytes messages left → front <+: left →
          d.next front = .failed → d.next left = .failed := by
  constructor
  · intro h
    constructor
    · intro messages left hreads hfailed
      have hwhole := h [bytes] (by simp)
      have hdecode := hreads.decode
      rw [decode_failed hfailed] at hdecode
      simp only [feed, push, List.nil_append, hdecode, List.append_nil, Prod.mk.injEq, and_true]
        at hwhole
      exact hwhole.symm
    · intro messages left front hreads hfront hfailed
      obtain ⟨back, rfl⟩ := hfront
      obtain ⟨gone, hbytes, hgone⟩ := hreads.front
      have hsplit := h [gone ++ front, back] (by simp [hbytes])
      have hfirst := (hgone front).decode
      rw [decode_failed hfailed] at hfirst
      simp only [feed, push, List.nil_append, hfirst] at hsplit
      rw [hreads.decode, Prod.mk.injEq] at hsplit
      have hnone := hsplit.2
      have hnil := (List.append_eq_nil_iff.mp hsplit.1.symm).2
      cases hnext : d.next (front ++ back) with
      | failed => rfl
      | waiting =>
        rw [decode_waiting hnext] at hnone
        cases hnone
      | ready message rest =>
        rw [decode_ready hnext] at hnil
        cases hnil
  · rintro ⟨hfirst, hlasting⟩ chunks rfl
    exact feed_eq_decode d.empty hfirst hlasting

end Decoder

end TianmaCoder
