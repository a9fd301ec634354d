import OnlineAccounts.Welcome

/-! # The end of the read loop

`onReadyRead` loops until bytes are missing.  It takes the length of a payload from the wire, as an
`int`, and with a negative one it never leaves: a read of a negative size takes nothing, the
comparison with what is needed succeeds, and the buffer never has that length.  With all other
lengths each round takes bytes.

So the loop ends exactly if no negative length is among the bytes, where the lengths are found by
going from payload to payload (`onReadyRead_returns_iff`). -/

namespace OnlineAccounts

open Loop

/-- Among the bytes from a border on there is a payload with a negative length. -/
inductive NegativeLength : Bytes → Prop where
  | here {b₀ b₁ b₂ b₃ : UInt8} (rest : Bytes) (h : lengthOf b₀ b₁ b₂ b₃ < 0) :
      NegativeLength (b₀ :: b₁ :: b₂ :: b₃ :: rest)
  | behind {b₀ b₁ b₂ b₃ : UInt8} {rest : Bytes} {n : ℕ} (h : lengthOf b₀ b₁ b₂ b₃ = n)
      (hn : n ≤ rest.length) (ht : NegativeLength (rest.drop n)) :
      NegativeLength (b₀ :: b₁ :: b₂ :: b₃ :: rest)

theorem NegativeLength.four_le {bytes : Bytes} (h : NegativeLength bytes) : 4 ≤ bytes.length := by
  cases h with
  | here rest _ => simp
  | behind _ _ _ => simp

/-- A payload in front makes no difference. -/
theorem negativeLength_cons_iff {b₀ b₁ b₂ b₃ : UInt8} {rest : Bytes} {n : ℕ}
    (h : lengthOf b₀ b₁ b₂ b₃ = n) :
    NegativeLength (b₀ :: b₁ :: b₂ :: b₃ :: rest) ↔
      n ≤ rest.length ∧ NegativeLength (rest.drop n) := by
  constructor
  · intro hneg
    cases hneg with
    | here _ h' => omega
    | @behind _ _ _ _ _ m h' hm ht =>
        obtain rfl : m = n := by omega
        exact ⟨hm, ht⟩
  · exact fun ⟨hn, ht⟩ => .behind h hn ht

namespace Ipc

/-- The bytes from the next border on: behind the payload that is being read, or behind the welcome
message. -/
def fromBorder (ipc : Ipc) : Bytes :=
  if ipc.expectedLength = 0 then
    if ipc.gotWelcomeMessage then ipc.channel
    else match indexOf welcomeMessage ipc.channel with
      | some found => ipc.channel.drop (found + welcomeMessage.length)
      | none => []
  else ipc.channel.drop (ipc.expectedLength - ipc.readBuffer.length).toNat

/-- The reader is at a border, or some bytes of a payload are missing. -/
def Proceeds (ipc : Ipc) : Prop :=
  ipc.expectedLength = 0 ∨
    ipc.gotWelcomeMessage = true ∧ (ipc.readBuffer.length : ℤ) < ipc.expectedLength

/-- The reader has taken a negative length. -/
structure Stuck (ipc : Ipc) : Prop where
  negative : ipc.expectedLength < 0
  readBuffer : ipc.readBuffer = []

/-! ### One round -/

theorem readPayload_missing {ipc : Ipc} {n : ℕ}
    (hn : ipc.expectedLength = ipc.readBuffer.length + n) :
    readPayload ipc =
      if ipc.channel.length < n then
        .stop { ipc with channel := [], readBuffer := ipc.readBuffer ++ ipc.channel }
      else .again { ipc with
        expectedLength := 0
        channel := ipc.channel.drop n
        readBuffer := ipc.readBuffer ++ ipc.channel.take n
        emitted := ipc.emitted ++ [ipc.readBuffer ++ ipc.channel.take n] } := by
  have hneeded : ipc.expectedLength - ipc.readBuffer.length = n := by omega
  unfold readPayload
  simp only [hneeded, Int.toNat_natCast]
  by_cases hshort : ipc.channel.length < n
  · have htake : ipc.channel.take n = ipc.channel := List.take_of_length_le hshort.le
    have hdrop : ipc.channel.drop n = [] := List.drop_of_length_le hshort.le
    rw [htake, hdrop, if_pos (Int.ofNat_lt.mpr hshort), if_pos hshort]
  · have hlen : (ipc.channel.take n).length = n := List.length_take_of_le (not_lt.mp hshort)
    have hall : ((ipc.readBuffer ++ ipc.channel.take n).length : ℤ) = ipc.expectedLength := by
      rw [List.length_append, hlen, hn, Nat.cast_add]
    rw [hlen, if_neg (lt_irrefl _), if_pos hall, if_neg hshort]

/-- A negative length is never reached, and nothing is taken. -/
theorem Stuck.round {ipc : Ipc} (h : ipc.Stuck) : Ipc.round ipc = .again ipc := by
  have hne : ipc.expectedLength ≠ 0 := h.negative.ne
  have hneeded : (ipc.expectedLength - ipc.readBuffer.length).toNat = 0 := by
    have := h.negative
    omega
  have hle : ipc.expectedLength ≤ ipc.readBuffer.length := by
    have := h.negative
    omega
  have heq : (ipc.readBuffer.length : ℤ) ≠ ipc.expectedLength := by
    have := h.negative
    omega
  simp [Ipc.round, readPayload, hne, hneeded, hle, heq]

/-- What a round does: it leaves if there is no negative length and goes on behind a payload, or
it takes a negative length. -/
def ProceedSpec (ipc : Ipc) : Round Ipc → Prop
  | .stop ipc' => ipc'.Proceeds ∧ ¬ NegativeLength ipc.fromBorder
  | .again ipc' =>
      (ipc'.Proceeds ∧ (NegativeLength ipc'.fromBorder ↔ NegativeLength ipc.fromBorder) ∧
        ipc'.channel.length < ipc.channel.length) ∨
      (ipc'.Stuck ∧ NegativeLength ipc.fromBorder)

theorem round_within {ipc : Ipc} (hgot : ipc.gotWelcomeMessage = true)
    (hlt : (ipc.readBuffer.length : ℤ) < ipc.expectedLength) : ProceedSpec ipc (round ipc) := by
  have hne : ipc.expectedLength ≠ 0 := by omega
  obtain ⟨n, hn⟩ : ∃ n : ℕ, ipc.expectedLength = ipc.readBuffer.length + n :=
    ⟨(ipc.expectedLength - ipc.readBuffer.length).toNat, by omega⟩
  have hborder : ipc.fromBorder = ipc.channel.drop n := by
    have hmissing : (ipc.expectedLength - ipc.readBuffer.length).toNat = n := by omega
    rw [fromBorder, if_neg hne, hmissing]
  unfold round
  rw [if_neg hne, readPayload_missing hn]
  split_ifs with hshort
  · refine ⟨.inr ⟨hgot, ?_⟩, ?_⟩
    · show ((ipc.readBuffer ++ ipc.channel).length : ℤ) < ipc.expectedLength
      rw [List.length_append]
      omega
    · rw [hborder, List.drop_of_length_le hshort.le]
      exact fun hneg => absurd hneg.four_le (by simp)
  · refine .inl ⟨.inl rfl, ?_, ?_⟩
    · rw [hborder, fromBorder]
      simp [hgot]
    · show (ipc.channel.drop n).length < ipc.channel.length
      rw [List.length_drop]
      omega

theorem readLength_cases (ipc : Ipc) :
    (ipc.channel.length < 4 ∧ ipc.readLength = ({ ipc with channel := [] }, none)) ∨
      ∃ b₀ b₁ b₂ b₃ rest, ipc.channel = b₀ :: b₁ :: b₂ :: b₃ :: rest ∧
        ipc.readLength = ({ ipc with channel := rest }, some (lengthOf b₀ b₁ b₂ b₃)) := by
  unfold readLength
  split
  · next b₀ b₁ b₂ b₃ rest hchannel => exact .inr ⟨b₀, b₁, b₂, b₃, rest, hchannel, rfl⟩
  · next hshort =>
    refine .inl ⟨?_, rfl⟩
    rcases hchannel : ipc.channel with _ | ⟨b₀, _ | ⟨b₁, _ | ⟨b₂, _ | ⟨b₃, rest⟩⟩⟩⟩
    · decide
    · simp
    · simp
    · simp
    · exact absurd hchannel (hshort b₀ b₁ b₂ b₃ rest)

theorem round_border {ipc : Ipc} (h0 : ipc.expectedLength = 0)
    (hgot : ipc.gotWelcomeMessage = true) : ProceedSpec ipc (round ipc) := by
  have hborder : ipc.fromBorder = ipc.channel := by simp [fromBorder, h0, hgot]
  have hwait : ipc.waitWelcomeMessage = ipc := if_pos hgot
  obtain ⟨hshort, hread⟩ | ⟨b₀, b₁, b₂, b₃, rest, hchannel, hread⟩ := ipc.readLength_cases
  · have hround : round ipc = .stop { ipc with channel := [] } := by
      simp only [round, h0, hwait, hgot, if_true, hread]
    rw [hround]
    refine ⟨.inl h0, ?_⟩
    rw [hborder]
    exact fun hneg => absurd hneg.four_le (by omega)
  · have hround : round ipc = readPayload { ipc with
        channel := rest, expectedLength := lengthOf b₀ b₁ b₂ b₃, readBuffer := [] } := by
      simp only [round, h0, hwait, hgot, if_true, hread]
    rw [hround]
    by_cases hneg : lengthOf b₀ b₁ b₂ b₃ < 0
    · -- nothing is read, and the state with the negative length stays
      have hstuck : Stuck { ipc with
          channel := rest, expectedLength := lengthOf b₀ b₁ b₂ b₃, readBuffer := [] } := ⟨hneg, rfl⟩
      have hpayload := hstuck.round
      rw [round, if_neg hneg.ne] at hpayload
      rw [hpayload]
      refine .inr ⟨hstuck, ?_⟩
      rw [hborder, hchannel]
      exact .here rest hneg
    · obtain ⟨n, hn⟩ := Int.eq_ofNat_of_zero_le (not_lt.mp hneg)
      have hiff : NegativeLength ipc.fromBorder ↔
          n ≤ rest.length ∧ NegativeLength (rest.drop n) := by
        rw [hborder, hchannel]
        exact negativeLength_cons_iff hn
      rw [readPayload_missing (n := n) (by simp [hn])]
      dsimp only
      split_ifs with hlt
      · refine ⟨.inr ⟨hgot, ?_⟩, ?_⟩
        · show (([] ++ rest : Bytes).length : ℤ) < lengthOf b₀ b₁ b₂ b₃
          rw [hn, List.nil_append]
          omega
        · rw [hiff]
          omega
      · refine .inl ⟨.inl rfl, ?_, ?_⟩
        · rw [hiff, fromBorder, if_pos rfl, if_pos hgot]
          exact ⟨fun h => ⟨by omega, h⟩, fun h => h.2⟩
        · rw [hchannel]
          simp only [List.length_drop, List.length_cons]
          omega

theorem round_waiting {ipc : Ipc} (h0 : ipc.expectedLength = 0)
    (hgot : ipc.gotWelcomeMessage = false) : ProceedSpec ipc (round ipc) := by
  -- the bytes in the channel are all there is to search
  have hwaiting : Waiting ipc.channel ipc :=
    ⟨hgot, h0, [], rfl, fun j hj => absurd hj (Nat.not_lt_zero j)⟩
  cases hfound : indexOf welcomeMessage ipc.channel with
  | none =>
      obtain ⟨hwaits, -⟩ := hwaiting.onReadyRead hfound
      have hround : round ipc = .stop ipc.waitWelcomeMessage := by
        simp [round, h0, hwaits.gotWelcomeMessage]
      rw [hround]
      refine ⟨.inl hwaits.expectedLength, ?_⟩
      simp only [fromBorder, h0, hgot, hfound, if_true]
      exact fun hneg => absurd hneg.four_le (by simp)
  | some i =>
      obtain ⟨hgot', h0', hchannel, hround⟩ := hwaiting.found hfound
      have hborder : ipc.fromBorder = ipc.waitWelcomeMessage.fromBorder := by
        simp [fromBorder, h0, hgot, hfound, h0', hgot', hchannel]
      have hle : ipc.waitWelcomeMessage.channel.length ≤ ipc.channel.length := by
        rw [hchannel, List.length_drop]
        omega
      have hspec := round_border h0' hgot'
      rw [hround]
      unfold ProceedSpec at hspec ⊢
      rw [hborder]
      cases hr : round ipc.waitWelcomeMessage with
      | stop t =>
          rw [hr] at hspec
          exact hspec
      | again t =>
          rw [hr] at hspec
          refine hspec.imp_left fun hgoes => ?_
          exact ⟨hgoes.1, hgoes.2.1, lt_of_lt_of_le hgoes.2.2 hle⟩

theorem Proceeds.round {ipc : Ipc} (h : ipc.Proceeds) : ProceedSpec ipc (Ipc.round ipc) := by
  obtain h0 | ⟨hgot, hlt⟩ := h
  · cases hgot : ipc.gotWelcomeMessage with
    | true => exact round_border h0 hgot
    | false => exact round_waiting h0 hgot
  · exact round_within hgot hlt

/-! ### The loop -/

/-- A reader that has taken a negative length stays in the loop. -/
theorem Stuck.not_returns {ipc ipc' : Ipc} (h : ipc.Stuck) : ¬ OnReadyRead ipc ipc' := by
  intro hr
  obtain ⟨s, hs, hstop⟩ := hr.invariant (I := Stuck) h (fun s s' hs hagain => by
    rw [hs.round] at hagain
    exact Round.again.inj hagain ▸ hs)
  rw [hs.round] at hstop
  cases hstop

theorem Proceeds.returns_iff {ipc : Ipc} (h : ipc.Proceeds) :
    (∃ ipc', OnReadyRead ipc ipc') ↔ ¬ NegativeLength ipc.fromBorder := by
  constructor
  · rintro ⟨ipc', hr⟩ hneg
    -- the negative length stays ahead until it is taken
    obtain ⟨s, hs, hstop⟩ := hr.invariant
      (I := fun s => (s.Proceeds ∧ NegativeLength s.fromBorder) ∨ s.Stuck) (.inl ⟨h, hneg⟩)
      (fun s s' hs hagain => by
        obtain ⟨hproceeds, hneg⟩ | hstuck := hs
        · have hspec := hproceeds.round
          rw [hagain] at hspec
          obtain ⟨hproceeds', hiff, -⟩ | ⟨hstuck, -⟩ := hspec
          · exact .inl ⟨hproceeds', hiff.mpr hneg⟩
          · exact .inr hstuck
        · rw [hstuck.round] at hagain
          exact .inr (Round.again.inj hagain ▸ hstuck))
    obtain ⟨hproceeds, hneg⟩ | hstuck := hs
    · have hspec := hproceeds.round
      rw [hstop] at hspec
      exact hspec.2 hneg
    · exact hstuck.not_returns (.stop hstop)
  · intro hneg
    refine exits_of_measure (I := fun s => s.Proceeds ∧ ¬ NegativeLength s.fromBorder)
      (μ := fun s => s.channel.length) ⟨h, hneg⟩ ?_
    rintro s s' ⟨hproceeds, hneg⟩ hagain
    have hspec := hproceeds.round
    rw [hagain] at hspec
    obtain ⟨hproceeds', hiff, hlt⟩ | ⟨-, hneg'⟩ := hspec
    · exact ⟨⟨hproceeds', fun h => hneg (hiff.mp h)⟩, hlt⟩
    · exact absurd hneg' hneg

/-- A call that returns leaves the reader at a border, or with missing bytes. -/
theorem Proceeds.onReadyRead {ipc ipc' : Ipc} (h : ipc.Proceeds) (hr : OnReadyRead ipc ipc') :
    ipc'.Proceeds := by
  obtain ⟨s, hs, hstop⟩ := hr.invariant (I := fun s => s.Proceeds ∨ s.Stuck) (.inl h)
    (fun s s' hs hagain => by
      obtain hproceeds | hstuck := hs
      · have hspec := hproceeds.round
        rw [hagain] at hspec
        exact hspec.imp (fun h => h.1) (fun h => h.1)
      · rw [hstuck.round] at hagain
        exact .inr (Round.again.inj hagain ▸ hstuck))
  obtain hproceeds | hstuck := hs
  · have hspec := hproceeds.round
    rw [hstop] at hspec
    exact hspec.1
  · exact absurd (.stop hstop) hstuck.not_returns

theorem Proceeds.receives {ipc ipc' : Ipc} {chunks : List Bytes} (h : ipc.Proceeds)
    (hr : Receives ipc chunks ipc') : ipc'.Proceeds := by
  induction hr with
  | nil => exact h
  | @cons ipc _ _ chunk _ hread _ ih =>
      have harrived : (ipc.arrive chunk).Proceeds := h
      exact ih (harrived.onReadyRead hread)

/-- **The read loop ends**, in every state reached and with every arrival, exactly if no payload
in the bytes that are there has a negative length. -/
theorem onReadyRead_returns_iff (isFile : Bool) (chunks : List Bytes) {ipc : Ipc}
    (h : Receives (setChannels isFile) chunks ipc) (chunk : Bytes) :
    (∃ ipc', OnReadyRead (ipc.arrive chunk) ipc') ↔
      ¬ NegativeLength (ipc.arrive chunk).fromBorder := by
  have hstart : (setChannels isFile).Proceeds := .inl rfl
  have hproceeds : ipc.Proceeds := hstart.receives h
  have harrived : (ipc.arrive chunk).Proceeds := hproceeds
  exact harrived.returns_iff

/-- After the welcome message, an empty payload and two bytes of one of three; the last one comes
with a negative length behind it. -/
theorem onReadyRead_returns_iff_file :
    ∃ ipc, Receives (setChannels true) [welcomeMessage ++ [0, 0, 0, 0, 3, 0, 0, 0, 7, 8]] ipc ∧
      ((∃ ipc', OnReadyRead (ipc.arrive [9, 0, 0, 0, 128]) ipc') ↔
        ¬ NegativeLength (ipc.arrive [9, 0, 0, 0, 128]).fromBorder) := by
  have hr : Receives (setChannels true) [welcomeMessage ++ [0, 0, 0, 0, 3, 0, 0, 0, 7, 8]]
      ⟨3, true, [7, 8], [], [[]]⟩ := .cons (exits_of_iterate 2 (by decide)) (.nil _)
  exact ⟨_, hr, onReadyRead_returns_iff true _ hr [9, 0, 0, 0, 128]⟩

/-- A length of -1 keeps the reader in the loop. -/
theorem negative_length_never_returns :
    ¬ ∃ ipc', OnReadyRead ((setChannels false).arrive [255, 255, 255, 255]) ipc' := by
  have hstart : ((setChannels false).arrive [255, 255, 255, 255]).Proceeds := .inl rfl
  rw [hstart.returns_iff]
  exact fun hpositive => hpositive (.here [] (by decide))

end Ipc

end OnlineAccounts
