import PennSearch.Chord.Net
import PennSearch.Search.Handlers

/-!
# The whole system

A `PennNet` is a Chord network and a search network over the same nodes. The
callbacks that a Chord handler performs run at once at the node that acts, and
so does a call of `LookupPublish` by a search handler (`viaChord`). Results that
assume the lookups rather than the Chord layer use `viaService` in its place: the
call is put aside, and answered later by an event of its own.
-/

namespace PennSearch

open MessagePassing

abbrev SearchNet := Net Ipv4Address SearchNode PennSearchMessage

abbrev SearchPacket := Packet Ipv4Address PennSearchMessage

structure LookupCall where
  node : Ipv4Address
  lookupKey : CxxString
  flag : UInt16
  transactionId : UInt32
deriving DecidableEq

/-- The two layers, and the lookups that wait for an answer. -/
structure PennNet where
  chord : ChordNet
  search : SearchNet
  lookups : List LookupCall

/-- What can happen next. The metadata file of a PUBLISH is given by its lines. -/
inductive PennEvent
  | chord (e : ChordEvent)
  | publish (node : Ipv4Address) (filename : CxxString) (lines : Option (List CxxString))
  | search (node nodeAddr : Ipv4Address) (keyList : List CxxString)
  | deliver (position : ℕ)
  | answer (position : ℕ) (addressResponsible : Ipv4Address)
deriving DecidableEq

/-- The packets among the actions of node `src`: those to `0.0.0.0` vanish, and
the socket refuses those that are too long. -/
def searchPackets (src : Ipv4Address) (acts : List SearchAction) : List SearchPacket :=
  acts.filterMap fun
    | .sendTo dst message =>
        if dst = .getAny ∨ message.fits = false then none else some ⟨src, dst, message⟩
    | _ => none

def lookupCalls (a : Ipv4Address) (acts : List SearchAction) : List LookupCall :=
  acts.filterMap fun
    | .lookupPublish lookupKey flag transactionId => some ⟨a, lookupKey, flag, transactionId⟩
    | _ => none

variable [Sha1]

namespace PennNet

def start (chordId searchId : Ipv4Address → UInt32) : PennNet where
  chord := .start chordId
  search := ⟨fun a => .start a (searchId a), []⟩
  lookups := []

def callback (s : PennNet) (a : Ipv4Address) (act : ChordAction) : Except Fault PennNet := do
  let (n, acts) ← (s.search.node a).handleChord act
  return { s with search := s.search.act a n (searchPackets a acts) }

def callbacks (s : PennNet) (a : Ipv4Address) (acts : List ChordAction) : Except Fault PennNet :=
  acts.foldlM (fun s act => s.callback a act) s

/-- An event of the Chord layer, with the callbacks. -/
def chordStep (s : PennNet) (e : ChordEvent) : Except Fault PennNet := do
  let (c, acts) ← s.chord.stepActions e
  { s with chord := c }.callbacks (s.chord.actor e) acts

def viaChord (s : PennNet) (l : LookupCall) : Except Fault PennNet :=
  s.chordStep (.lookupPublish l.node l.lookupKey l.flag l.transactionId)

/-- A lookup that is answered later. -/
def viaService (s : PennNet) (l : LookupCall) : Except Fault PennNet :=
  .ok { s with lookups := s.lookups ++ [l] }

omit [Sha1] in
theorem foldlM_viaService (s : PennNet) (calls : List LookupCall) :
    calls.foldlM viaService s = .ok { s with lookups := s.lookups ++ calls } := by
  induction calls generalizing s with
  | nil => simp [pure, Except.pure]
  | cons l calls ih =>
      rw [List.foldlM_cons]
      change calls.foldlM viaService { s with lookups := s.lookups ++ [l] } = _
      rw [ih]
      simp

def searchTurn (lookup : PennNet → LookupCall → Except Fault PennNet) (s : PennNet)
    (a : Ipv4Address) (result : SearchResult) : Except Fault PennNet := do
  let (n, acts) ← result
  (lookupCalls a acts).foldlM lookup { s with search := s.search.act a n (searchPackets a acts) }

/-- One event. The Chord layer is not asked for a lookup by an event, but by the
handlers of the search layer. -/
def step (lookup : PennNet → LookupCall → Except Fault PennNet) (s : PennNet) :
    PennEvent → Except Fault PennNet
  | .chord (.lookupPublish _ _ _ _) => .ok s
  | .chord e => s.chordStep e
  | .publish a filename lines =>
      s.searchTurn lookup a ((s.search.node a).processPublishCommand filename lines)
  | .search a nodeAddr keyList =>
      s.searchTurn lookup a ((s.search.node a).processSearchCommand nodeAddr keyList)
  | .deliver k =>
      match s.search.inFlight[k]? with
      | none => .ok s
      | some p =>
          { s with search := s.search.take k }.searchTurn lookup p.dst
            ((s.search.node p.dst).recvMessage p.msg p.src)
  | .answer i addressResponsible =>
      match s.lookups[i]? with
      | none => .ok s
      | some l =>
          { s with lookups := s.lookups.eraseIdx i }.callbacks l.node
            (ChordNode.lookupCallback l.flag l.lookupKey addressResponsible l.transactionId)

variable {s s' : PennNet}

theorem callbacks_chord {a : Ipv4Address} {acts : List ChordAction}
    (h : s.callbacks a acts = .ok s') : s'.chord = s.chord := by
  induction acts generalizing s with
  | nil =>
      cases h
      rfl
  | cons act acts ih =>
      obtain ⟨s₁, h₁, hrest⟩ := bind_eq_ok.mp (List.foldlM_cons.symm.trans h)
      obtain ⟨r, -, hr⟩ := bind_eq_ok.mp h₁
      cases hr
      exact ih (s := { s with search := s.search.act a r.1 (searchPackets a r.2) }) hrest

theorem chordStep_chord {e : ChordEvent} (h : s.chordStep e = .ok s') :
    ∃ acts, s.chord.stepActions e = .ok (s'.chord, acts) := by
  obtain ⟨⟨c, acts⟩, hstep, hback⟩ := bind_eq_ok.mp h
  exact ⟨acts, by rw [hstep, callbacks_chord hback]⟩

end PennNet

end PennSearch
