import Mathlib.Data.List.TakeWhile
import Mathlib.Tactic.Common

/-!
# `udp-relay`

The relay receives datagrams on port 9999 and sends each of them on to port 3500. For every message
it opens another socket, and it closes none. So a process that may hold only so many descriptors
sends on as many messages as it has descriptors left, and is silent from then on.

Assumed of the system: `socket` fails exactly at the limit of descriptors, and `sendto` sends what it
is given unless the descriptor is -1.
-/

namespace FlukeTesting.UdpRelay

/-- A byte string. -/
abbrev Bytes := List UInt8

/-- `sizeof(mesg)`. -/
def mesgSize : ℕ := 4096

/-- `char mesg[4096]`. -/
structure Mesg where
  bytes : Bytes
  size : bytes.length = mesgSize

/-- A datagram that leaves the process. -/
structure Outgoing where
  address : String
  port : ℕ
  payload : Bytes
  deriving DecidableEq

/-- The process: the limit of its descriptors, how many of them are open, its locals and what it has
sent so far. -/
structure Process where
  limit : ℕ
  opened : ℕ
  sockfd : ℕ
  mesg : Mesg
  sent : List Outgoing

/-- `socket(AF_INET, SOCK_DGRAM, 0)`: the next descriptor, or -1 at the limit. -/
def socket (s : Process) : Option ℕ × Process :=
  if s.opened < s.limit then (some s.opened, { s with opened := s.opened + 1 }) else (none, s)

/-- `sendto`, which sends nothing on the descriptor -1. -/
def sendto (sock : Option ℕ) (datagram : Outgoing) (s : Process) : Process :=
  match sock with
  | none => s
  | some _ => { s with sent := s.sent ++ [datagram] }

/-- `recvfrom(sockfd, mesg, 1000, ...)`: the front of the datagram, and how many bytes it has. -/
def recvfrom (datagram : Bytes) (mesg : Mesg) : Mesg × ℕ :=
  let got := datagram.take 1000
  (⟨got ++ mesg.bytes.drop got.length, by
    have hsize := mesg.size
    have hgot : got.length ≤ 1000 := List.length_take_le _ _
    rw [mesgSize] at hsize ⊢
    rw [List.length_append, List.length_drop, hsize]
    omega⟩, got.length)

/-- `mesg[n] = 0`. -/
def Mesg.terminate (mesg : Mesg) (n : ℕ) : Mesg where
  bytes := mesg.bytes.set n 0
  size := by rw [List.length_set, mesg.size]

/-- The C string at the front of the buffer: `strlen` bytes. -/
def Mesg.text (mesg : Mesg) : Bytes := mesg.bytes.takeWhile (· != 0)

/-- `sendit`. -/
def sendit (msg : Mesg) (s : Process) : Process :=
  let (sock, s) := socket s
  sendto sock ⟨"127.0.0.1", 3500, msg.text⟩ s

/-- One pass of the receive loop, with the datagram that arrives. -/
def receive (s : Process) (datagram : Bytes) : Process :=
  let (mesg, n) := recvfrom datagram s.mesg
  let s := { s with mesg }
  if 0 < n then
    let s := { s with mesg := s.mesg.terminate n }
    sendit s.mesg s
  else s

/-- The receive loop on the datagrams that arrive one after the other. -/
def relay (s : Process) (datagrams : List Bytes) : Process := datagrams.foldl receive s

/-- What `main` finds: the limit of descriptors and how many it inherits. -/
structure System where
  limit : ℕ
  opened : ℕ

/-- `main` in front of the receive loop, with the success of `bind` and what `mesg` holds. It exits
if it gets no socket. -/
def start (sys : System) (bound : Bool) (mesg : Mesg) : Option Process :=
  let s : Process := ⟨sys.limit, sys.opened, 0, mesg, []⟩
  match socket s with
  | (none, _) => none
  | (some sockfd, s) => if bound then some { s with sockfd } else none

/-- A tag as it is sent to the relay: not empty, no NUL, and at most 1000 bytes. -/
structure Tag where
  bytes : Bytes
  nonempty : bytes ≠ []
  noNul : 0 ∉ bytes
  fits : bytes.length ≤ 1000

/-- The datagram that the relay owes a tag. -/
def Tag.outgoing (tag : Tag) : Outgoing := ⟨"127.0.0.1", 3500, tag.bytes⟩

/-- A received tag that is terminated is the string of the buffer. -/
theorem Tag.text_recvfrom (tag : Tag) (mesg : Mesg) :
    ((recvfrom tag.bytes mesg).1.terminate (recvfrom tag.bytes mesg).2).text = tag.bytes := by
  have hsize : tag.bytes.length < mesg.bytes.length := by
    rw [mesg.size, mesgSize]
    have := tag.fits
    omega
  have htag : ∀ b ∈ tag.bytes, (b != 0) = true := fun b hb => by
    rw [bne_iff_ne]
    exact fun heq => tag.noNul (heq ▸ hb)
  obtain ⟨b, rest, hrest⟩ := List.exists_cons_of_length_pos
    (l := mesg.bytes.drop tag.bytes.length) (by rw [List.length_drop]; omega)
  simp only [Mesg.text, Mesg.terminate, recvfrom, List.take_of_length_le tag.fits, hrest]
  rw [List.set_append_right _ _ le_rfl, Nat.sub_self, List.set_cons_zero,
    List.takeWhile_append_of_pos htag]
  simp

/-- A tag is sent on as long as there is a descriptor left, and takes it. -/
theorem receive_tag (s : Process) (tag : Tag) :
    (receive s tag.bytes).limit = s.limit ∧
      (receive s tag.bytes).opened = (if s.opened < s.limit then s.opened + 1 else s.opened) ∧
      (receive s tag.bytes).sent =
        s.sent ++ if s.opened < s.limit then [tag.outgoing] else [] := by
  have hn : 0 < (recvfrom tag.bytes s.mesg).2 := by
    change 0 < (tag.bytes.take 1000).length
    rw [List.take_of_length_le tag.fits]
    exact List.length_pos_iff.mpr tag.nonempty
  have htext := tag.text_recvfrom s.mesg
  simp only [receive, if_pos hn, sendit, socket, htext]
  split <;> simp [sendto, Tag.outgoing]

/-- The tags that the relay sends on are the first ones, as many as there are descriptors left. -/
theorem relay_tags (s : Process) (tags : List Tag) :
    (relay s (tags.map Tag.bytes)).opened = s.opened + (tags.take (s.limit - s.opened)).length ∧
      (relay s (tags.map Tag.bytes)).sent =
        s.sent ++ (tags.take (s.limit - s.opened)).map Tag.outgoing := by
  induction tags generalizing s with
  | nil => simp [relay]
  | cons tag tags ih =>
    obtain ⟨hlimit, hopened, hsent⟩ := receive_tag s tag
    obtain ⟨ihopened, ihsent⟩ := ih (receive s tag.bytes)
    rw [hlimit, hopened] at ihopened ihsent
    change (relay (receive s tag.bytes) (tags.map Tag.bytes)).opened = _ ∧
      (relay (receive s tag.bytes) (tags.map Tag.bytes)).sent = _
    rw [ihopened, ihsent, hsent]
    by_cases hroom : s.opened < s.limit
    · obtain ⟨left, hleft⟩ := Nat.exists_eq_add_of_lt hroom
      have hmore : s.limit - s.opened = left + 1 := by omega
      have hrest : s.limit - (s.opened + 1) = left := by omega
      rw [if_pos hroom, if_pos hroom, hmore, hrest, List.take_succ_cons, List.length_cons,
        List.map_cons, List.append_assoc, List.singleton_append]
      exact ⟨by omega, rfl⟩
    · have hnone : s.limit - s.opened = 0 := by omega
      rw [if_neg hroom, if_neg hroom, hnone, List.take_zero, List.take_zero, List.append_nil]
      exact ⟨rfl, rfl⟩

/-- The relay starts if it gets a descriptor for its own socket. -/
theorem start_eq {sys : System} (h : sys.opened < sys.limit) (mesg : Mesg) :
    start sys true mesg = some ⟨sys.limit, sys.opened + 1, sys.opened, mesg, []⟩ := by
  simp [start, socket, h]

/-- The relay starts, sends on exactly the tags it receives, in their order, and after every tag has
as many descriptors open as before. -/
def Delivers (sys : System) (mesg : Mesg) (tags : List Tag) : Prop :=
  ∃ s, start sys true mesg = some s ∧
    (relay s (tags.map Tag.bytes)).sent = tags.map Tag.outgoing ∧
    ∀ front tag back, tags = front ++ tag :: back →
      (relay s ((front ++ [tag]).map Tag.bytes)).opened = (relay s (front.map Tag.bytes)).opened

/-- A relay that can start and send a tag delivers no tags at all: the first one already costs a
descriptor. -/
theorem delivers_iff (sys : System) (hroom : sys.opened + 2 ≤ sys.limit) (mesg : Mesg)
    (tags : List Tag) : Delivers sys mesg tags ↔ tags = [] := by
  unfold Delivers
  simp only [start_eq (by omega : sys.opened < sys.limit) mesg, Option.some.injEq,
    exists_eq_left']
  constructor
  · rintro ⟨-, hopened⟩
    cases tags with
    | nil => rfl
    | cons tag tags =>
      have hfirst := hopened [] tag tags rfl
      rw [(relay_tags _ _).1, (relay_tags _ _).1, List.nil_append] at hfirst
      have hleft : sys.limit - (sys.opened + 1) = (sys.limit - (sys.opened + 2)) + 1 := by omega
      simp [hleft] at hfirst
  · rintro rfl
    exact ⟨rfl, fun front tag back hsplit => by simp at hsplit⟩

/-- The tags all arrive exactly if there are no more of them than descriptors left. -/
theorem relay_sent_iff (sys : System) (hroom : sys.opened < sys.limit) (mesg : Mesg)
    (tags : List Tag) :
    (∃ s, start sys true mesg = some s ∧
      (relay s (tags.map Tag.bytes)).sent = tags.map Tag.outgoing) ↔
      tags.length ≤ sys.limit - (sys.opened + 1) := by
  simp only [start_eq hroom mesg, Option.some.injEq, exists_eq_left', (relay_tags _ _).2,
    List.nil_append]
  constructor
  · intro hsame
    have hlength := congrArg List.length hsame
    rw [List.length_map, List.length_map, List.length_take] at hlength
    omega
  · intro hfew
    rw [List.take_of_length_le hfew]

/-- An empty buffer. -/
def zeroMesg : Mesg := ⟨List.replicate mesgSize 0, List.length_replicate⟩

/-- The tag `TAG`. -/
def sampleTag : Tag := ⟨[84, 65, 71], by decide, by decide, by decide⟩

/-- With room for two descriptors beyond the inherited ones, two tags are not delivered. -/
theorem two_tags_delivers_iff :
    Delivers ⟨5, 3⟩ zeroMesg [sampleTag, sampleTag] ↔ [sampleTag, sampleTag] = [] :=
  delivers_iff ⟨5, 3⟩ le_rfl zeroMesg [sampleTag, sampleTag]

/-- The second tag is lost. -/
theorem two_tags_not_delivered : ¬ Delivers ⟨5, 3⟩ zeroMesg [sampleTag, sampleTag] := by
  rintro ⟨s, hs, hsent, -⟩
  rw [start_eq (by decide), Option.some.injEq] at hs
  rw [← hs, (relay_tags _ _).2] at hsent
  exact absurd (congrArg List.length hsent) (by decide)

end FlukeTesting.UdpRelay
