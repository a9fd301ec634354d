import OnlineAccounts.Loop

/-! # The framing of the messages between the processes

`Ipc` (`online-accounts-ui/ipc.cpp`) writes each payload behind its length, an `int` of four
bytes, and reads the payloads back from a channel whose bytes arrive in pieces.  `onReadyRead`
runs after every arrival; it is a loop, given here by its rounds (`Ipc.round`), and
`read(n)` takes the bytes that are there, at most `n` (none when `n` is negative).  The bytes of
the length are taken in little-endian order, on both sides.

A round that finds one to three bytes of a length takes them and forgets them.  The payloads
come out as they were written exactly if no arrival ends inside the four bytes of a length
(`framing_iff`). -/

namespace OnlineAccounts

open Loop

abbrev Bytes := List UInt8

/-- The bytes of an `int` that is not negative. -/
def lengthBytes (n : ℕ) : Bytes :=
  [UInt8.ofNat n, UInt8.ofNat (n / 2 ^ 8), UInt8.ofNat (n / 2 ^ 16), UInt8.ofNat (n / 2 ^ 24)]

/-- The `int` in four bytes. -/
def lengthOf (b₀ b₁ b₂ b₃ : UInt8) : ℤ :=
  let n : ℕ := b₀.toNat + 2 ^ 8 * b₁.toNat + 2 ^ 16 * b₂.toNat + 2 ^ 24 * b₃.toNat
  if n < 2 ^ 31 then (n : ℤ) else (n : ℤ) - 2 ^ 32

/-- The bytes that `write(data)` puts into the channel. -/
def frame (data : Bytes) : Bytes := lengthBytes data.length ++ data

/-- The bytes of a sequence of writes. -/
def frames (payloads : List Bytes) : Bytes := payloads.flatMap frame

def welcomeMessage : Bytes := [0x4f, 0x41, 0x55, 0x69, 0x6e, 0x69, 0x74, 0x49, 0x50, 0x43]

/-- `indexOf(pattern)`: where the pattern occurs first. -/
def indexOf (pattern : Bytes) : Bytes → Option ℕ
  | [] => if pattern = [] then some 0 else none
  | b :: bs => if pattern.isPrefixOf (b :: bs) then some 0 else (indexOf pattern bs).map (· + 1)

/-- The reader, with the bytes that wait in its channel and the payloads it has emitted. -/
structure Ipc where
  expectedLength : ℤ := 0
  gotWelcomeMessage : Bool := true
  readBuffer : Bytes := []
  channel : Bytes := []
  emitted : List Bytes := []
deriving DecidableEq

namespace Ipc

/-- `setChannels`: only a file has to begin with the welcome message. -/
def setChannels (isFile : Bool) : Ipc := { gotWelcomeMessage := !isFile }

/-! ### Waiting for the welcome message -/

/-- A round of `waitWelcomeMessage`, which looks at the next 40 bytes. -/
def waitRound (ipc : Ipc) : Round Ipc :=
  let buffer := ipc.channel.take 40
  match indexOf welcomeMessage buffer with
  | some found => .stop { ipc with
      channel := ipc.channel.drop (found + welcomeMessage.length)
      gotWelcomeMessage := true }
  | none =>
      let skip := buffer.length - welcomeMessage.length
      if 0 < skip then .again { ipc with channel := ipc.channel.drop skip } else .stop ipc

/-- `waitWelcomeMessage()`; its answer is then `gotWelcomeMessage`. -/
def waitWelcomeMessage (ipc : Ipc) : Ipc :=
  if ipc.gotWelcomeMessage then ipc else Loop.run waitRound (·.channel.length) ipc

/-- The loop of `waitWelcomeMessage` leaves: each round that goes on takes bytes. -/
theorem waitWelcomeMessage_exits (ipc : Ipc) (h : ipc.gotWelcomeMessage = false) :
    Exits waitRound ipc ipc.waitWelcomeMessage := by
  unfold waitWelcomeMessage
  rw [h, if_neg Bool.false_ne_true]
  refine exits_run (fun s s' hs => ?_) ipc
  unfold waitRound at hs
  cases hf : indexOf welcomeMessage (s.channel.take 40) with
  | some found => simp [hf] at hs
  | none =>
      simp only [hf] at hs
      split_ifs at hs with hskip
      cases hs
      simp only [List.length_take, List.length_drop] at hskip ⊢
      omega

/-! ### Reading -/

/-- Read the length of the next payload; `none` when it is not there. -/
def readLength (ipc : Ipc) : Ipc × Option ℤ :=
  match ipc.channel with
  | b₀ :: b₁ :: b₂ :: b₃ :: rest =>
      ({ ipc with channel := rest }, some (lengthOf b₀ b₁ b₂ b₃))
  | _ => ({ ipc with channel := [] }, none)

/-- Read on in a payload. -/
def readPayload (ipc : Ipc) : Round Ipc :=
  let neededBytes := ipc.expectedLength - ipc.readBuffer.length
  let buffer := ipc.channel.take neededBytes.toNat
  let ipc := { ipc with
    channel := ipc.channel.drop neededBytes.toNat
    readBuffer := ipc.readBuffer ++ buffer }
  if (buffer.length : ℤ) < neededBytes then .stop ipc
  else if (ipc.readBuffer.length : ℤ) = ipc.expectedLength then
    .again { ipc with expectedLength := 0, emitted := ipc.emitted ++ [ipc.readBuffer] }
  else .again ipc

/-- A round of `onReadyRead`. -/
def round (ipc : Ipc) : Round Ipc :=
  if ipc.expectedLength = 0 then
    let ipc := ipc.waitWelcomeMessage
    if ipc.gotWelcomeMessage then
      match ipc.readLength with
      | (ipc, none) => .stop ipc
      | (ipc, some length) => readPayload { ipc with expectedLength := length, readBuffer := [] }
    else .stop ipc
  else readPayload ipc

/-- `onReadyRead()` returns, in state `ipc'`. -/
def OnReadyRead (ipc ipc' : Ipc) : Prop := Exits round ipc ipc'

/-- Bytes arrive. -/
def arrive (chunk : Bytes) (ipc : Ipc) : Ipc := { ipc with channel := ipc.channel ++ chunk }

/-- The reader gets from one state to another while some chunks of bytes arrive; `onReadyRead`
runs, and returns, after each of them. -/
inductive Receives : Ipc → List Bytes → Ipc → Prop where
  | nil (ipc : Ipc) : Receives ipc [] ipc
  | cons {ipc ipc' ipc'' : Ipc} {chunk : Bytes} {chunks : List Bytes}
      (h : OnReadyRead (ipc.arrive chunk) ipc') (hs : Receives ipc' chunks ipc'') :
      Receives ipc (chunk :: chunks) ipc''

theorem Receives.unique {ipc t u : Ipc} {chunks : List Bytes} (ht : Receives ipc chunks t)
    (hu : Receives ipc chunks u) : t = u := by
  induction ht with
  | nil => cases hu; rfl
  | cons h _ ih =>
      cases hu with
      | cons h' hu => exact ih (h'.unique h ▸ hu)

end Ipc

/-! ### Positions in the byte stream -/

/-- After `n` bytes of the stream, one to three bytes of a length have been seen. -/
def InsideLength : List Bytes → ℕ → Prop
  | [], _ => False
  | p :: ps, n => (0 < n ∧ n < 4) ∨ (4 + p.length ≤ n ∧ InsideLength ps (n - (4 + p.length)))

@[simp] theorem frame_length (p : Bytes) : (frame p).length = 4 + p.length := by
  simp only [frame, lengthBytes, List.length_append, List.length_cons, List.length_nil]

@[simp] theorem frames_nil : frames [] = [] := rfl

@[simp] theorem frames_cons (p : Bytes) (ps : List Bytes) :
    frames (p :: ps) = frame p ++ frames ps := rfl

@[simp] theorem frames_append (ps qs : List Bytes) :
    frames (ps ++ qs) = frames ps ++ frames qs := by
  simp [frames]

theorem insideLength_zero (ps : List Bytes) : ¬ InsideLength ps 0 := by
  cases ps with
  | nil => exact id
  | cons p ps =>
      rintro (h | ⟨h, -⟩)
      · omega
      · omega

theorem insideLength_append (ps qs : List Bytes) (n : ℕ) :
    InsideLength (ps ++ qs) ((frames ps).length + n) ↔ InsideLength qs n := by
  induction ps with
  | nil => simp
  | cons p ps ih =>
      have hrest : (frames (p :: ps)).length + n - (4 + p.length) = (frames ps).length + n := by
        simp only [frames_cons, List.length_append, frame_length]
        omega
      rw [List.cons_append, InsideLength, hrest, ih]
      simp only [frames_cons, List.length_append, frame_length]
      constructor
      · rintro (h | h)
        · omega
        · exact h.2
      · exact fun h => .inr ⟨by omega, h⟩

theorem lengthOf_lengthBytes {n : ℕ} (h : n < 2 ^ 31) :
    lengthOf (UInt8.ofNat n) (UInt8.ofNat (n / 2 ^ 8)) (UInt8.ofNat (n / 2 ^ 16))
      (UInt8.ofNat (n / 2 ^ 24)) = n := by
  have hn : (UInt8.ofNat n).toNat + 2 ^ 8 * (UInt8.ofNat (n / 2 ^ 8)).toNat +
      2 ^ 16 * (UInt8.ofNat (n / 2 ^ 16)).toNat + 2 ^ 24 * (UInt8.ofNat (n / 2 ^ 24)).toNat = n := by
    simp only [UInt8.toNat_ofNat']
    omega
  unfold lengthOf
  simp only [hn, h, if_true]

namespace Ipc

/-! ### A reader that is in step with the stream -/

/-- The reader has emitted the first payloads and stands between two frames, or within one. -/
inductive Synced : List Bytes → Bytes → Ipc → Prop where
  | between (emitted rest : List Bytes) (readBuffer channel : Bytes) :
      Synced (emitted ++ rest) (frames emitted ++ channel)
        ⟨0, true, readBuffer, channel, emitted⟩
  | within (emitted rest : List Bytes) (readBuffer channel : Bytes) {p : Bytes}
      (hp : readBuffer.length < p.length) :
      Synced (emitted ++ p :: rest)
        (frames emitted ++ (lengthBytes p.length ++ (readBuffer ++ channel)))
        ⟨p.length, true, readBuffer, channel, emitted⟩

theorem Synced.arrive {payloads : List Bytes} {arrived : Bytes} {ipc : Ipc} (chunk : Bytes)
    (h : Synced payloads arrived ipc) : Synced payloads (arrived ++ chunk) (ipc.arrive chunk) := by
  cases h with
  | between emitted rest readBuffer channel =>
      rw [List.append_assoc]
      exact .between emitted rest readBuffer (channel ++ chunk)
  | within emitted rest readBuffer channel hp =>
      simp only [List.append_assoc]
      exact .within emitted rest readBuffer (channel ++ chunk) hp

/-- The bytes that the reader has taken and not lost. -/
def weight (ipc : Ipc) : ℕ :=
  (frames ipc.emitted).length +
    (if ipc.expectedLength = 0 then 0 else 4 + ipc.readBuffer.length) + ipc.channel.length

theorem Synced.weight {payloads : List Bytes} {arrived : Bytes} {ipc : Ipc}
    (h : Synced payloads arrived ipc) : ipc.weight = arrived.length := by
  cases h with
  | between emitted rest readBuffer channel => simp [Ipc.weight]
  | @within emitted rest readBuffer channel p hp =>
      have hne : (p.length : ℤ) ≠ 0 := by omega
      simp only [Ipc.weight, hne, if_false, List.length_append, lengthBytes, List.length_cons,
        List.length_nil]
      omega

/-- When every byte has arrived and was taken, every payload has been emitted. -/
theorem Synced.emitted_eq {payloads : List Bytes} {ipc : Ipc}
    (h : Synced payloads (frames payloads) ipc) (hc : ipc.channel = []) : ipc.emitted = payloads := by
  generalize ha : frames payloads = arrived at h
  cases h with
  | between emitted rest readBuffer channel =>
      obtain rfl : channel = [] := hc
      cases rest with
      | nil => simp
      | cons p rest => simp [frame, lengthBytes] at ha
  | @within emitted rest readBuffer channel p hp =>
      obtain rfl : channel = [] := hc
      have := congrArg List.length ha
      simp only [frames_append, frames_cons, List.length_append, frame_length, lengthBytes,
        List.length_cons, List.length_nil] at this
      omega

/-! ### One round -/

theorem readPayload_short (p readBuffer channel : Bytes) (emitted : List Bytes)
    (h : readBuffer.length + channel.length < p.length) :
    readPayload ⟨p.length, true, readBuffer, channel, emitted⟩ =
      .stop ⟨p.length, true, readBuffer ++ channel, [], emitted⟩ := by
  have hn : ((p.length : ℤ) - readBuffer.length).toNat = p.length - readBuffer.length := by omega
  have htake : channel.take (p.length - readBuffer.length) = channel :=
    List.take_of_length_le (by omega)
  have hdrop : channel.drop (p.length - readBuffer.length) = [] :=
    List.drop_of_length_le (by omega)
  have hlt : (channel.length : ℤ) < p.length - readBuffer.length := by omega
  simp only [readPayload, hn, htake, hdrop, hlt, if_true]

theorem readPayload_full (readBuffer missing channel : Bytes) (emitted : List Bytes) :
    readPayload ⟨(readBuffer ++ missing).length, true, readBuffer, missing ++ channel, emitted⟩ =
      .again ⟨0, true, readBuffer ++ missing, channel, emitted ++ [readBuffer ++ missing]⟩ := by
  have hn : (((readBuffer ++ missing).length : ℤ) - readBuffer.length).toNat = missing.length := by
    simp
  have hlt : ¬ (missing.length : ℤ) < (readBuffer ++ missing).length - readBuffer.length := by
    simp
  simp only [readPayload, hn, List.take_left, List.drop_left, hlt, if_false, if_true]

/-- What a round does to a reader in step: it goes on in step, it leaves in step with nothing
left to read, or it leaves having lost bytes of a length. -/
def RoundSpec (payloads : List Bytes) (arrived : Bytes) (ipc : Ipc) : Round Ipc → Prop
  | .again ipc' => Synced payloads arrived ipc' ∧ ipc'.channel.length < ipc.channel.length
  | .stop ipc' => ipc'.gotWelcomeMessage = true ∧
      ((Synced payloads arrived ipc' ∧ ipc'.channel = [] ∧ ¬ InsideLength payloads arrived.length) ∨
        (InsideLength payloads arrived.length ∧ ipc'.weight < arrived.length))

/-- Reading on in the payload `p`, of which `readBuffer` has been read. -/
theorem readPayload_spec {p readBuffer channel : Bytes} {rest emitted : List Bytes}
    {ipc : Ipc} (hp : readBuffer.length ≤ p.length)
    (hpre : readBuffer ++ channel <+: p ++ frames rest)
    (hless : p.length - readBuffer.length = 0 → channel.length < ipc.channel.length)
    (hle : channel.length ≤ ipc.channel.length) :
    RoundSpec (emitted ++ p :: rest)
      (frames emitted ++ (lengthBytes p.length ++ (readBuffer ++ channel))) ipc
      (readPayload ⟨p.length, true, readBuffer, channel, emitted⟩) := by
  by_cases hshort : readBuffer.length + channel.length < p.length
  · rw [readPayload_short p readBuffer channel emitted hshort]
    refine ⟨rfl, .inl ⟨?_, rfl, ?_⟩⟩
    · have := Synced.within emitted rest (readBuffer ++ channel) [] (p := p)
        (by simpa using hshort)
      rwa [List.append_nil] at this
    · rw [List.length_append, insideLength_append]
      simp only [InsideLength, lengthBytes, List.length_append, List.length_cons, List.length_nil]
      rintro (h | ⟨h, -⟩)
      · omega
      · omega
  · -- the channel holds the rest of the payload
    obtain ⟨missing, rfl⟩ : readBuffer <+: p :=
      List.prefix_of_prefix_length_le ((List.prefix_append _ _).trans hpre)
        (List.prefix_append _ _) hp
    have hmissing : missing <+: channel := by
      rw [List.append_assoc, List.prefix_append_right_inj] at hpre
      refine List.prefix_of_prefix_length_le (List.prefix_append missing (frames rest)) hpre ?_
      simp only [List.length_append] at hshort
      omega
    obtain ⟨channel, rfl⟩ := hmissing
    rw [readPayload_full]
    refine ⟨?_, ?_⟩
    · have := Synced.between (emitted ++ [readBuffer ++ missing]) rest (readBuffer ++ missing)
        channel
      simpa [frame] using this
    · simp only [List.length_append] at hle hless ⊢
      by_cases hm : missing.length = 0
      · have := hless (by omega)
        omega
      · omega

/-- At the border of a frame, either the length is there or the round takes what there is. -/
theorem round_between {channel readBuffer : Bytes} {rest emitted : List Bytes}
    (hlen : ∀ p ∈ rest, p.length < 2 ^ 31) (hpre : channel <+: frames rest) :
    RoundSpec (emitted ++ rest) (frames emitted ++ channel)
      ⟨0, true, readBuffer, channel, emitted⟩ (round ⟨0, true, readBuffer, channel, emitted⟩) := by
  have hround (ipc : Ipc) (length : Option ℤ)
      (h : readLength ⟨0, true, readBuffer, channel, emitted⟩ = (ipc, length)) :
      round ⟨0, true, readBuffer, channel, emitted⟩ = match length with
        | none => .stop ipc
        | some length => readPayload { ipc with expectedLength := length, readBuffer := [] } := by
    simp only [round, waitWelcomeMessage, if_true, h]
    cases length <;> rfl
  by_cases hshort : channel.length < 4
  · have hread : readLength ⟨0, true, readBuffer, channel, emitted⟩ =
        (⟨0, true, readBuffer, [], emitted⟩, none) := by
      unfold readLength
      match channel, hshort with
      | [], _ => rfl
      | [_], _ => rfl
      | [_, _], _ => rfl
      | [_, _, _], _ => rfl
    rw [hround _ _ hread]
    refine ⟨rfl, ?_⟩
    rw [List.length_append, insideLength_append]
    cases hc : channel with
    | nil => exact .inl ⟨.between emitted rest _ _, rfl, insideLength_zero rest⟩
    | cons b bs =>
        refine .inr ⟨?_, by simp [Ipc.weight]⟩
        cases rest with
        | nil => simp [hc] at hpre
        | cons p rest => exact .inl ⟨by simp, by simpa [hc] using hshort⟩
  · cases rest with
    | nil =>
        rw [frames_nil, List.prefix_nil] at hpre
        simp [hpre] at hshort
    | cons p rest =>
        obtain ⟨channel, rfl⟩ : lengthBytes p.length <+: channel := by
          refine List.prefix_of_prefix_length_le ?_ hpre (by simpa [lengthBytes] using hshort)
          simp [frame, List.append_assoc]
        have hread : readLength ⟨0, true, readBuffer, lengthBytes p.length ++ channel, emitted⟩ =
            (⟨0, true, readBuffer, channel, emitted⟩, some (p.length : ℤ)) := by
          simp only [readLength, lengthBytes, List.cons_append, List.nil_append,
            lengthOf_lengthBytes (hlen p List.mem_cons_self)]
        rw [hround _ _ hread]
        refine readPayload_spec (List.nil_prefix.length_le) ?_ (fun _ => ?_) ?_
        · rwa [frames_cons, frame, List.append_assoc, List.prefix_append_right_inj] at hpre
        · simp only [lengthBytes, List.length_append, List.length_cons, List.length_nil]
          omega
        · simp

theorem Synced.round {payloads : List Bytes} {arrived : Bytes} {ipc : Ipc}
    (hlen : ∀ p ∈ payloads, p.length < 2 ^ 31) (hpre : arrived <+: frames payloads)
    (h : Synced payloads arrived ipc) : RoundSpec payloads arrived ipc ipc.round := by
  cases h with
  | between emitted rest readBuffer channel =>
      rw [frames_append, List.prefix_append_right_inj] at hpre
      exact round_between (fun p hp => hlen p (List.mem_append_right _ hp)) hpre
  | @within emitted rest readBuffer channel p hp =>
      have hne : (p.length : ℤ) ≠ 0 := by omega
      rw [Ipc.round, if_neg hne]
      refine readPayload_spec hp.le ?_ (fun h0 => by omega) le_rfl
      rwa [frames_append, List.prefix_append_right_inj, frames_cons, frame, List.append_assoc,
        List.prefix_append_right_inj] at hpre

/-- `onReadyRead` returns on a reader in step, and it is in step afterwards unless the bytes
end inside a length. -/
theorem Synced.onReadyRead {payloads : List Bytes} {arrived : Bytes} {ipc : Ipc}
    (hlen : ∀ p ∈ payloads, p.length < 2 ^ 31) (hpre : arrived <+: frames payloads)
    (h : Synced payloads arrived ipc) :
    ∃ ipc', OnReadyRead ipc ipc' ∧ RoundSpec payloads arrived ipc (.stop ipc') := by
  have hagain (s s' : Ipc) (hs : Synced payloads arrived s) (hr : s.round = .again s') :
      Synced payloads arrived s' ∧ s'.channel.length < s.channel.length := by
    have := hs.round hlen hpre
    rwa [hr] at this
  obtain ⟨ipc', hexit⟩ := exits_of_measure (μ := fun s => s.channel.length) h hagain
  refine ⟨ipc', hexit, ?_⟩
  obtain ⟨s, hs, hstop⟩ := hexit.invariant h fun s s' hs hr => (hagain s s' hs hr).1
  have := hs.round hlen hpre
  rw [hstop] at this
  exact this

/-! ### Bytes that are lost -/

theorem readPayload_weight (ipc : Ipc) :
    ipc.readPayload.state.gotWelcomeMessage = ipc.gotWelcomeMessage ∧
      ipc.readPayload.state.weight ≤
        (frames ipc.emitted).length + (4 + ipc.readBuffer.length) + ipc.channel.length := by
  have hsplit (n : ℕ) : (ipc.channel.take n).length + (ipc.channel.drop n).length =
      ipc.channel.length := by
    rw [← List.length_append, List.take_append_drop]
  have := hsplit (ipc.expectedLength - ipc.readBuffer.length).toNat
  unfold readPayload
  dsimp only
  split
  · refine ⟨rfl, ?_⟩
    simp only [Round.state, weight, List.length_append]
    split_ifs <;> omega
  · split
    · refine ⟨rfl, ?_⟩
      simp only [Round.state, weight, frames_append, frames_cons, frames_nil, List.append_nil,
        List.length_append, frame_length, if_true]
      omega
    · refine ⟨rfl, ?_⟩
      simp only [Round.state, weight, List.length_append]
      split_ifs <;> omega

theorem readLength_weight (ipc : Ipc) :
    ipc.readLength.1 = { ipc with channel := ipc.readLength.1.channel } ∧
      ipc.readLength.1.channel.length + (if ipc.readLength.2.isSome then 4 else 0) ≤
        ipc.channel.length := by
  unfold readLength
  match ipc.channel with
  | [] => exact ⟨rfl, by simp⟩
  | [_] => exact ⟨rfl, by simp⟩
  | [_, _] => exact ⟨rfl, by simp⟩
  | [_, _, _] => exact ⟨rfl, by simp⟩
  | _ :: _ :: _ :: _ :: _ => exact ⟨rfl, by simp⟩

/-- Once the welcome message is behind, a round never gains bytes. -/
theorem round_weight (ipc : Ipc) (h : ipc.gotWelcomeMessage = true) :
    ipc.round.state.gotWelcomeMessage = true ∧ ipc.round.state.weight ≤ ipc.weight := by
  unfold round
  by_cases h0 : ipc.expectedLength = 0
  · have hwait : ipc.waitWelcomeMessage = ipc := by simp [waitWelcomeMessage, h]
    rw [if_pos h0]
    simp only [hwait, h, if_true]
    obtain ⟨heq, hle⟩ := readLength_weight ipc
    cases hread : ipc.readLength with
    | mk ipc' length =>
        simp only [hread] at heq hle ⊢
        cases length with
        | none =>
            simp only [Option.isSome_none, Bool.false_eq_true, if_false] at hle
            rw [heq]
            refine ⟨h, ?_⟩
            simp only [Round.state, weight, h0, if_true]
            omega
        | some length =>
            obtain ⟨hgot, hw⟩ :=
              readPayload_weight { ipc' with expectedLength := length, readBuffer := [] }
            simp only [Option.isSome_some, if_true] at hle
            rw [heq] at hgot hw ⊢
            refine ⟨hgot.trans h, hw.trans ?_⟩
            simp only [weight, h0, if_true, List.length_nil]
            omega
  · rw [if_neg h0]
    obtain ⟨hgot, hw⟩ := readPayload_weight ipc
    refine ⟨hgot.trans h, hw.trans ?_⟩
    simp only [weight, h0, if_false]
    exact le_rfl

theorem onReadyRead_weight {ipc ipc' : Ipc} (hr : OnReadyRead ipc ipc')
    (h : ipc.gotWelcomeMessage = true) :
    ipc'.gotWelcomeMessage = true ∧ ipc'.weight ≤ ipc.weight := by
  obtain ⟨s, ⟨hs, hle⟩, hstop⟩ := hr.invariant
    (I := fun s => s.gotWelcomeMessage = true ∧ s.weight ≤ ipc.weight) ⟨h, le_rfl⟩
    (fun s s' hs hround => by
      have := round_weight s hs.1
      rw [hround] at this
      exact ⟨this.1, this.2.trans hs.2⟩)
  have := round_weight s hs
  rw [hstop] at this
  exact ⟨this.1, this.2.trans hle⟩

theorem weight_arrive (ipc : Ipc) (chunk : Bytes) :
    (ipc.arrive chunk).weight = ipc.weight + chunk.length := by
  have hchannel : (ipc.arrive chunk).channel.length = ipc.channel.length + chunk.length :=
    List.length_append
  rw [weight, hchannel, ← Nat.add_assoc]
  rfl

theorem Receives.weight {ipc ipc' : Ipc} {chunks : List Bytes} (hr : Receives ipc chunks ipc')
    (h : ipc.gotWelcomeMessage = true) : ipc'.weight ≤ ipc.weight + chunks.flatten.length := by
  induction hr with
  | nil => simp
  | @cons ipc ipc₁ ipc₂ chunk chunks hread _ ih =>
      obtain ⟨hgot, hle⟩ := onReadyRead_weight hread h
      have := ih hgot
      rw [weight_arrive] at hle
      simp only [List.flatten_cons, List.length_append]
      omega

/-! ### Whole streams -/

/-- No arrival ends inside a length, when `n` bytes have arrived before. -/
def Clean (payloads : List Bytes) (n : ℕ) (chunks : List Bytes) : Prop :=
  ∀ before, before <+: chunks → ¬ InsideLength payloads (n + before.flatten.length)

theorem clean_cons {payloads : List Bytes} {n : ℕ} {chunk : Bytes} {chunks : List Bytes}
    (hn : ¬ InsideLength payloads n) :
    Clean payloads n (chunk :: chunks) ↔ Clean payloads (n + chunk.length) chunks := by
  constructor
  · intro h before hb
    have := h (chunk :: before) (List.cons_prefix_cons.mpr ⟨rfl, hb⟩)
    simpa [Nat.add_assoc] using this
  · intro h before hb
    cases before with
    | nil => simpa using hn
    | cons c before =>
        obtain ⟨rfl, hbefore⟩ := List.cons_prefix_cons.mp hb
        simpa [Nat.add_assoc] using h before hbefore

/-- From a reader in step that has read all there is, the rest of the stream gets through
exactly if the rest of the arrivals are clean. -/
theorem Synced.receives_iff {payloads : List Bytes} (hlen : ∀ p ∈ payloads, p.length < 2 ^ 31) :
    ∀ (chunks : List Bytes) {arrived : Bytes} {ipc : Ipc}, Synced payloads arrived ipc →
      ipc.channel = [] → ¬ InsideLength payloads arrived.length →
        arrived ++ chunks.flatten = frames payloads →
          ((∃ ipc', Receives ipc chunks ipc' ∧ ipc'.emitted = payloads) ↔
            Clean payloads arrived.length chunks)
  | [], arrived, ipc, h, hc, hin, hall => by
      rw [List.flatten_nil, List.append_nil] at hall
      subst hall
      constructor
      · rintro - before hb
        rw [List.prefix_nil] at hb
        simpa [hb] using hin
      · exact fun _ => ⟨ipc, .nil ipc, h.emitted_eq hc⟩
  | chunk :: chunks, arrived, ipc, h, hc, hin, hall => by
      rw [List.flatten_cons, ← List.append_assoc] at hall
      obtain ⟨ipc', hread, hgot, hspec⟩ :=
        (h.arrive chunk).onReadyRead hlen (hall ▸ List.prefix_append _ _)
      have hnext (P : Ipc → Prop) : (∃ t, Receives ipc (chunk :: chunks) t ∧ P t) ↔
          ∃ t, Receives ipc' chunks t ∧ P t := by
        constructor
        · rintro ⟨t, hr, ht⟩
          cases hr with
          | cons hread' hr => exact ⟨t, hread'.unique hread ▸ hr, ht⟩
        · rintro ⟨t, hr, ht⟩
          exact ⟨t, .cons hread hr, ht⟩
      rw [hnext, clean_cons hin, ← List.length_append]
      rcases hspec with ⟨hsync, hempty, hin'⟩ | ⟨hin', hlost⟩
      · exact hsync.receives_iff hlen chunks hempty hin' hall
      · constructor
        · -- the bytes that are lost now are missing in the end
          rintro ⟨t, hr, rfl⟩
          have hw := hr.weight hgot
          have htotal := congrArg List.length hall
          rw [List.length_append] at htotal
          have : (frames t.emitted).length ≤ t.weight := by
            unfold Ipc.weight
            omega
          omega
        · intro hclean
          exact absurd hin' (by simpa using hclean [] (List.nil_prefix))

/-- **Framing and the cuts of the byte stream**: the payloads are emitted as they were written,
whatever they are, exactly if no arrival ends inside the four bytes of a length. -/
theorem framing_iff (payloads chunks : List Bytes) (hlen : ∀ p ∈ payloads, p.length < 2 ^ 31)
    (hall : chunks.flatten = frames payloads) :
    (∃ ipc, Receives (setChannels false) chunks ipc ∧ ipc.emitted = payloads) ↔
      Clean payloads 0 chunks := by
  have hstart : Synced payloads [] (setChannels false) :=
    Synced.between [] payloads [] []
  exact hstart.receives_iff hlen chunks rfl (insideLength_zero payloads) hall

/-- The theorem for two payloads, one of them empty, that arrive in three pieces. -/
theorem framing_iff_pieces :
    (∃ ipc, Receives (setChannels false) [[2, 0, 0, 0, 7], [8, 0, 0, 0, 0], []] ipc ∧
      ipc.emitted = [[7, 8], []]) ↔ Clean [[7, 8], []] 0 [[2, 0, 0, 0, 7], [8, 0, 0, 0, 0], []] :=
  framing_iff [[7, 8], []] [[2, 0, 0, 0, 7], [8, 0, 0, 0, 0], []] (by decide) (by decide)

/-- One payload of one byte, cut after two bytes of its length, is never emitted. -/
theorem cut_length_is_lost :
    ¬ ∃ ipc, Receives (setChannels false) [[1, 0], [0, 0, 7]] ipc ∧ ipc.emitted = [[7]] := by
  have hlost : Receives (setChannels false) [[1, 0], [0, 0, 7]] {} :=
    .cons (show OnReadyRead _ {} from exits_of_iterate 1 (by decide))
      (.cons (exits_of_iterate 1 (by decide)) (.nil _))
  rintro ⟨ipc, hr, he⟩
  rw [hr.unique hlost] at he
  revert he
  decide

end Ipc

end OnlineAccounts
