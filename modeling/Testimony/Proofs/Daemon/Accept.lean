import Testimony.Proofs.Daemon.Segmentation
import Testimony.Proofs.Daemon.Single
import Testimony.Wire

/-!
# `Testimony.Proofs.Daemon.Accept`: what becomes of the client's messages

A client sends block indexes and TLVs. If every header can be read at once, `handleReads` posts the
indexes in order up to the first invalid one (`handleReads_msgs`). Between the two goroutines
nothing is lost, added or reordered: `Accepting` says that what has been posted and what is still to
be posted are together what `handleReads` posts on its own. `returns_accepted` puts this together.
-/

set_option autoImplicit false

namespace Testimony.Daemon

open Lib Lib.BigEndian Wire Seg

/-! ### Messages -/

/-- A message of a client after the handshake. -/
inductive ClientMsg where
  | block (i : Fin (2 ^ 31))
  | tlv (typ : MsgType) (val : List UInt8) (top : 2 ^ 15 ≤ typ.toNat) (short : val.length < 2 ^ 16)

/-- The bytes behind it. -/
def ClientMsg.value : ClientMsg → List UInt8
  | .block _ => []
  | .tlv _ val _ _ => val

/-- The block index a message carries. -/
def ClientMsg.index : ClientMsg → Option Nat
  | .block i => some i
  | .tlv _ _ _ _ => none

variable {numBlocks : Nat}

/-- One round of `handleReads`, which goes on with `next`. -/
def readsRound (numBlocks : Nat) (next : List Seg → ReadsResult) (net : List Seg) : ReadsResult :=
  match fetch 4 net with
  | .stop e => ⟨[], .of e, []⟩
  | .got buf rest =>
      if buf.length ≠ 4 then ⟨[], .returned, pending rest⟩
      else
        match classify numBlocks (uint32 buf) with
        | .tlv _ length =>
            match skip length rest with
            | some net => next net
            | none => ⟨[], .of (ending rest), []⟩
        | .invalid _ => ⟨[], .returned, pending rest⟩
        | .block i => (next rest).post (i + 1)

/-- A round goes on with fewer bytes, so no other stream matters. -/
theorem readsRound_congr {f g : List Seg → ReadsResult} {net : List Seg}
    (h : ∀ net', (pending net').length < (pending net).length → f net' = g net') :
    readsRound numBlocks f net = readsRound numBlocks g net := by
  unfold readsRound
  cases hfetch : fetch 4 net with
  | stop e => rfl
  | got buf rest =>
      have hlen := length_rest_lt (by decide) hfetch
      simp only [h rest hlen]
      cases classify numBlocks (uint32 buf) with
      | invalid i | block i => rfl
      | tlv typ length =>
          cases hskip : skip length rest with
          | none => simp only [hskip]
          | some net' =>
              simp only [hskip, h net' (Nat.lt_of_le_of_lt (length_skip_le hskip) hlen)]

/-- A round for each byte is enough. -/
theorem readsLoop_rounds (r : Nat) : ∀ (r' : Nat) (net : List Seg), (pending net).length < r →
    (pending net).length < r' → readsLoop numBlocks r net = readsLoop numBlocks r' net := by
  induction r with
  | zero => exact fun _ _ h _ => absurd h (Nat.not_lt_zero _)
  | succ r ih =>
      intro r' net hr hr'
      obtain ⟨q, rfl⟩ : ∃ q, r' = q + 1 := ⟨r' - 1, by omega⟩
      show readsRound numBlocks (readsLoop numBlocks r) net =
        readsRound numBlocks (readsLoop numBlocks q) net
      exact readsRound_congr fun net' hlt => ih q net' (by omega) (by omega)

/-- `handleReads` round by round. -/
theorem handleReads_eq (net : List Seg) :
    handleReads numBlocks net = readsRound numBlocks (handleReads numBlocks) net := by
  show readsRound numBlocks (readsLoop numBlocks (pending net).length) net = _
  exact readsRound_congr fun net' hlt => readsLoop_rounds _ _ net' hlt (Nat.lt_succ_self _)

/-! ### Between the goroutines -/

/-- What is left for `handleReads` to do if nobody closes the socket under it. -/
def remaining (numBlocks : Nat) (net : List Seg) : ReadsPc → ReadsResult
  | .read => handleReads numBlocks net
  | .value missing =>
      match skip missing net with
      | some net => handleReads numBlocks net
      | none => ⟨[], .of (ending net), []⟩
  | .post v => (handleReads numBlocks net).post v
  | .closeOldBlocks => ⟨[], .returned, pending net⟩
  | .done => ⟨[], .returned, pending net⟩

/-- The value it is about to post. -/
def ReadsPc.inHand : ReadsPc → List Nat
  | .post v => [v]
  | _ => []

/-- It waits for a value only if there is one. -/
def ReadsPc.Waits : ReadsPc → Prop
  | .value missing => 0 < missing
  | _ => True

/-- Behind a word `handleReads` waits for a value only if the word announces one. -/
theorem waits_afterWord (w : Word) : (afterWord w).Waits := by
  match w with
  | .tlv _ 0 => trivial
  | .tlv _ (n + 1) => exact Nat.succ_pos n
  | .invalid _ => trivial
  | .block _ => trivial

/-- A header that was read whole. -/
theorem remaining_word {net rest : List Seg} {buf : List UInt8}
    (hfetch : fetch 4 net = .got buf rest) (hlen : buf.length = 4) :
    remaining numBlocks rest (afterWord (classify numBlocks (uint32 buf))) =
      remaining numBlocks net .read := by
  show _ = handleReads numBlocks net
  rw [handleReads_eq net, readsRound]
  simp only [hfetch, hlen, ne_eq, not_true_eq_false, if_false]
  cases hw : classify numBlocks (uint32 buf) with
  | invalid i => rfl
  | block i => rfl
  | tlv typ length =>
      cases length with
      | zero =>
          simp only [skip_zero]
          rfl
      | succ n => rfl

/-- A header that was not read whole. -/
theorem remaining_short {net rest : List Seg} {buf : List UInt8}
    (hfetch : fetch 4 net = .got buf rest) (hlen : buf.length ≠ 4) :
    remaining numBlocks rest .closeOldBlocks = remaining numBlocks net .read := by
  show _ = handleReads numBlocks net
  rw [handleReads_eq net, readsRound]
  simp only [hfetch, hlen, ne_eq, not_false_eq_true, if_true]
  rfl

/-- A part of a value. -/
theorem remaining_value {net rest : List Seg} {missing : Nat} (hpos : 0 < missing)
    {buf : List UInt8} (hfetch : fetch missing net = .got buf rest) :
    remaining numBlocks rest
        (if buf.length = missing then .read else .value (missing - buf.length)) =
      remaining numBlocks net (.value missing) := by
  have hskip := skip_fetch hpos hfetch
  have hending := ending_of_fetch hfetch
  by_cases hlen : buf.length = missing
  · rw [hlen, Nat.sub_self, skip_zero] at hskip
    rw [if_pos hlen, remaining, remaining, hskip]
  · rw [if_neg hlen, remaining, remaining, hskip, hending]

/-- With nothing to read, what is left depends on what stands behind. -/
theorem remaining_end {net : List Seg} {pc : ReadsPc} (hwaits : pc.Waits)
    (hpc : pc = .read ∨ ∃ missing, pc = .value missing) (h : pending net = []) :
    remaining numBlocks net pc = ⟨[], .of (ending net), []⟩ := by
  rcases hpc with rfl | ⟨missing, rfl⟩
  · show handleReads numBlocks net = _
    rw [handleReads_eq net, readsRound]
    simp only [fetch_stop 4 h]
  · have hlt : (pending net).length < missing := by
      rw [h]
      exact hwaits
    rw [remaining, skip_none hlt]

/-- What `handleReads` is about to post is the first of what it still posts. -/
theorem inHand_le_remaining (net : List Seg) (pc : ReadsPc) :
    pc.inHand <+: (remaining numBlocks net pc).posted := by
  cases pc with
  | post v => exact ⟨_, rfl⟩
  | _ => exact List.nil_prefix

namespace Single

variable {k : Conf}

/-- What was posted is the beginning of what `total` says, and as long as the socket is open the
rest of `total` is still to come. -/
structure Accepting (total : ReadsResult) (s : State k) : Prop where
  waits : s.cn.reads.Waits
  posted_le : s.posted ++ s.cn.reads.inHand <+: total.posted
  to_come : s.cn.closed = false → (remaining k.numBlocks s.net s.cn.reads).after s.posted = total

/-- Nothing is added to a channel that does not change. -/
theorem added_self {α : Type} {cap : Nat} (ch : Chan α cap) : added ch ch = [] :=
  List.drop_length

/-- `handleReads` has read something, or failed to. -/
theorem Accepting.afterRead {total : ReadsResult} {s : State k} (h : Accepting total s)
    {net : List Seg} {pc : ReadsPc} (hwaits : pc.Waits) (hhand : s.cn.reads.inHand = [])
    (hclosed : s.cn.closed = true → pc.inHand = [])
    (hopen : s.cn.closed = false →
      remaining k.numBlocks net pc = remaining k.numBlocks s.net s.cn.reads) :
    Accepting total (s.afterReads net (.ok { s.cn with reads := pc } [])) := by
  have hposted : s.posted ++ added s.cn.oldBlocks s.cn.oldBlocks = s.posted := by
    rw [added_self, List.append_nil]
  refine ⟨hwaits, ?_, fun hc => ?_⟩
  · show s.posted ++ added s.cn.oldBlocks s.cn.oldBlocks ++ pc.inHand <+: total.posted
    rw [hposted]
    -- On a closed socket nothing more is taken in hand. On an open one the rest is still to come.
    cases hc : s.cn.closed with
    | true =>
        have hle := h.posted_le
        rw [hhand] at hle
        rw [hclosed hc]
        exact hle
    | false =>
        rw [← h.to_come hc, ← hopen hc]
        exact (List.prefix_append_right_inj _).mpr (inHand_le_remaining net pc)
  · show (remaining k.numBlocks net pc).after
      (s.posted ++ added s.cn.oldBlocks s.cn.oldBlocks) = total
    rw [hposted, hopen hc]
    exact h.to_come hc

/-- The steps of `handleReads` on its stream. -/
inductive Reading (s : State k) : State k → Prop
  | word {buf : List UInt8} {rest : List Seg} (hpc : s.cn.reads = .read)
      (hopen : s.cn.closed = false) (hfetch : fetch 4 s.net = .got buf rest)
      (hlen : buf.length = 4) :
      Reading s (s.afterReads rest
        (.ok { s.cn with reads := afterWord (classify k.numBlocks (uint32 buf)) } []))
  | short {buf : List UInt8} {rest : List Seg} (hpc : s.cn.reads = .read)
      (hfetch : fetch 4 s.net = .got buf rest) (hlen : buf.length ≠ 4) :
      Reading s (s.afterReads rest (.ok { s.cn with reads := .closeOldBlocks } []))
  | stop (hpc : s.cn.reads = .read ∨ ∃ missing, s.cn.reads = .value missing)
      (hend : s.cn.closed = true ∨ pending s.net = [] ∧ ending s.net ≠ .blocked) :
      Reading s (s.afterReads s.net (.ok { s.cn with reads := .closeOldBlocks } []))
  | value {missing : Nat} {buf : List UInt8} {rest : List Seg} (hpc : s.cn.reads = .value missing)
      (hopen : s.cn.closed = false) (hfetch : fetch missing s.net = .got buf rest)
      (hle : buf.length ≤ missing) :
      Reading s (s.afterReads rest (.ok { s.cn with
        reads := if buf.length = missing then .read else .value (missing - buf.length) } []))
  | post {v : Nat} {q : Chan Nat k.numBlocks} (hpc : s.cn.reads = .post v)
      (hq : s.cn.oldBlocks.send v = .sent q) :
      Reading s (s.afterReads s.net (.ok { s.cn with oldBlocks := q, reads := .read } []))
  | close {q : Chan Nat k.numBlocks} (hpc : s.cn.reads = .closeOldBlocks)
      (hq : s.cn.oldBlocks.close = some q) :
      Reading s (s.afterReads s.net (.ok { s.cn with oldBlocks := q, reads := .done } []))
  | death {p : Panic} : Reading s { s with panic := some p }

/-- An end that makes `handleReads` return. -/
theorem stop_of_ne_blocked {e : End} (h : e ≠ .blocked) : ReadsStop.of e = .returned := by
  cases e with
  | blocked => exact absurd rfl h
  | eof | error errno => rfl

/-- The steps of `handleReads`. -/
theorem Accepting.reads {total : ReadsResult} {s s' : State k} (h : Accepting total s)
    (hstep : Reading s s') : Accepting total s' := by
  cases hstep with
  | word hpc hopen hfetch hlen =>
      refine h.afterRead (waits_afterWord _) (by rw [hpc]; rfl)
        (fun hc => absurd (hopen.symm.trans hc) (by decide)) fun _ => ?_
      rw [hpc]
      exact remaining_word hfetch hlen
  | short hpc hfetch hlen =>
      refine h.afterRead trivial (by rw [hpc]; rfl) (fun _ => rfl) fun _ => ?_
      rw [hpc]
      exact remaining_short hfetch hlen
  | stop hpc hend =>
      refine h.afterRead trivial (by rcases hpc with hpc | ⟨missing, hpc⟩ <;> rw [hpc] <;> rfl)
        (fun _ => rfl) fun hopen => ?_
      obtain ⟨hnil, hending⟩ := hend.resolve_left (by rw [hopen]; decide)
      rw [remaining_end h.waits hpc hnil, stop_of_ne_blocked hending, remaining, hnil]
  | @value missing buf rest hpc hopen hfetch hle =>
      have hpos := h.waits
      rw [hpc] at hpos
      refine h.afterRead ?_ (by rw [hpc]; rfl)
        (fun hc => absurd (hopen.symm.trans hc) (by decide)) fun _ => ?_
      · split
        · trivial
        · exact Nat.sub_pos_of_lt (Nat.lt_of_le_of_ne hle ‹_›)
      · rw [hpc]
        exact remaining_value hpos hfetch
  | @post v q hpc hq =>
      -- The value in hand goes into the channel.
      have hadded : added s.cn.oldBlocks q = [v] := by
        rw [added, (Chan.send_eq_sent hq).2.2, List.drop_left]
      have hle := h.posted_le
      have hcome := h.to_come
      rw [hpc] at hle hcome
      refine ⟨trivial, ?_, fun hc => ?_⟩
      · show s.posted ++ added s.cn.oldBlocks q ++ [] <+: total.posted
        rw [hadded, List.append_nil]
        exact hle
      · show (handleReads k.numBlocks s.net).after (s.posted ++ added s.cn.oldBlocks q) = total
        rw [hadded, ← hcome hc]
        exact congrArg (fun vs => ReadsResult.mk vs _ _) (List.append_assoc _ _ _)
  | @close q hpc hq =>
      have hadded : added s.cn.oldBlocks q = [] := by
        rw [added, (Chan.close_eq_some hq).2.2, List.drop_length]
      have hle := h.posted_le
      have hcome := h.to_come
      rw [hpc] at hle hcome
      refine ⟨trivial, ?_, fun hc => ?_⟩
      · show s.posted ++ added s.cn.oldBlocks q ++ [] <+: total.posted
        rw [hadded, List.append_nil]
        exact hle
      · show (remaining k.numBlocks s.net .done).after (s.posted ++ added s.cn.oldBlocks q) = total
        rw [hadded, List.append_nil]
        exact hcome hc
  | death => exact ⟨h.waits, h.posted_le, h.to_come⟩

/-- The other steps leave `handleReads` and its stream alone. At most they close the socket. -/
theorem Accepting.frame {total : ReadsResult} {s s' : State k} (h : Accepting total s)
    (hreads : s'.cn.reads = s.cn.reads) (hposted : s'.posted = s.posted) (hnet : s'.net = s.net)
    (hclosed : s'.cn.closed = false → s.cn.closed = false) : Accepting total s' := by
  refine ⟨by rw [hreads]; exact h.waits, by rw [hreads, hposted]; exact h.posted_le, fun hc => ?_⟩
  rw [hreads, hposted, hnet]
  exact h.to_come (hclosed hc)

end Single

end Testimony.Daemon
