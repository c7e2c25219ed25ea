import ArkWire.Protocol.System
import ArkWire.Protocol.Sections

/-! # What one step of a session can do

`Step` lists the effects of the actions of `System`, each with the condition it was taken under;
`step_cases` says that these are all. The invariants of the session are proved over it. -/

namespace ArkWire.Protocol.Steps

open ArkWire.Lib.Machines
open ArkWire.Transport.Errors ArkWire.Protocol.Errors ArkWire.Protocol.Envelope
open ArkWire.Protocol.Promise ArkWire.Protocol.Operation ArkWire.Protocol.Session
open ArkWire.Protocol.System

variable {M : Type} {codec : Codec M} {s s' : Sys M}

/-- The message the reader hands to the session in a step. -/
def input : Action M → Option Bytes
  | .message bytes _ => some bytes
  | _ => none

/-- **The effects of a step**, with the message it receives. -/
inductive Step (codec : Codec M) (s : Sys M) : Option Bytes → Sys M → Prop
  /-- A refused call changes nothing. -/
  | unchanged : Step codec s none s
  | request {message deadline now session} :
    s.session.request message deadline now = .ok session → Step codec s none (s.withSession session)
  | respond {id result deadline now session} : id ∈ s.responders →
    s.session.reply id result deadline now = .ok session →
    Step codec s none (({ s with responders := s.responders.erase id }.withSession session).logged
      (.replied id result false))
  /-- A responder is dropped, or its reply is refused by a closed session. -/
  | abandon {id} : id ∈ s.responders →
    Step codec s none
      ({ s with responders := s.responders.erase id }.enterAutoreply id unansweredError)
  | recv {session taken} : s.receiving = none →
    s.session.takeIncoming = some (session, taken) →
    Step codec s none { s.withSession session with receiving := some taken }
  | decode {id message} : s.receiving = some (id, message) →
    Step codec s none (s.decodeRequest codec id message)
  | autoreplyDropped {i id error} : s.autoreplies[i]? = some ⟨id, error, none⟩ →
    s.session.autoreplyTimeout = none →
    Step codec s none { s with autoreplies := s.autoreplies.eraseIdx i }
  | autoreplyTimed {i id error deadline} : s.autoreplies[i]? = some ⟨id, error, none⟩ →
    Step codec s none { s with
      autoreplies := s.autoreplies.eraseIdx i ++ [⟨id, error, some deadline⟩] }
  | autoreplyRefused {i id error deadline now e} :
    s.autoreplies[i]? = some ⟨id, error, some deadline⟩ →
    s.session.reply id (.error error) deadline now = .error e →
    Step codec s none { s with autoreplies := s.autoreplies.eraseIdx i }
  | autoreplyQueued {i id error deadline now session} :
    s.autoreplies[i]? = some ⟨id, error, some deadline⟩ →
    s.session.reply id (.error error) deadline now = .ok session →
    Step codec s none
      (({ s with autoreplies := s.autoreplies.eraseIdx i }.withSession session).logged
        (.replied id (.error error) true))
  | messageRefused {bytes now session error} :
    s.session.handleMessage codec bytes now = .ok (session, .error error) →
    Step codec s (some bytes) { s.withSession session with owed := s.owed ++ [⟨error, none⟩] }
  | messageRouted {bytes now session} :
    s.session.handleMessage codec bytes now = .ok (session, .ok none) →
    Step codec s (some bytes) (s.withSession session)
  | messageUnknown {bytes now session id} :
    s.session.handleMessage codec bytes now = .ok (session, .ok (some id)) →
    Step codec s (some bytes) ((s.withSession session).enterAutoreply id unknownError)
  /-- Closed by the application, by the reader or by the server. -/
  | close {error now} : error = .closed ∨ (∃ e, error = .transport e) →
    Step codec s none (s.close error now)
  | closeOwed {i error now} : s.owed[i]? = some ⟨error, none⟩ →
    Step codec s none ({ s with owed := s.owed.eraseIdx i }.close error now)
  | closeReceive {i error id now} : s.owed[i]? = some ⟨error, some id⟩ →
    Step codec s none (({ s with owed := s.owed.eraseIdx i }.close error now).enterAutoreply id
      unansweredError)
  | discard {envelope rest} : s.discarded = envelope :: rest →
    Step codec s none { s.withShared (s.session.shared.release envelope) with discarded := rest }
  | setInboundLimits {requests bytes now} :
    Step codec s none (s.finishClose (s.session.setInboundLimits requests bytes now))
  | setAutoreplyTimeout {timeout} :
    Step codec s none (s.withSession (s.session.setAutoreplyTimeout timeout))
  | expire {now} : Step codec s none (s.withSession (s.session.expire now))
  | pickupClosed {now session} : s.writer = .idle →
    s.session.nextOutgoing now = .ok (session, .closed) →
    Step codec s none { s.withSession session with writer := .stopped }
  | pickupNone {now session pickup} : s.writer = .idle →
    s.session.nextOutgoing now = .ok (session, pickup) → pickup = .again ∨ pickup = .wait →
    Step codec s none (s.withSession session)
  | pickup {now session id message} : s.writer = .idle →
    s.session.nextOutgoing now = .ok (session, .taken id message) →
    Step codec s none { s.withSession session with writer := .holding id message }
  | refuse {id message error} : s.writer = .holding id message →
    codec.encode s.session.side id message.body.result = .error error →
    Step codec s none { s with writer := .refused id message error }
  | send {id message bytes} : s.writer = .holding id message →
    codec.encode s.session.side id message.body.result = .ok bytes →
    Step codec s none { s with
      writer := .reporting message.key (.ok ())
      outbox := s.outbox ++ [⟨id, message, bytes⟩] }
  | sendFailed {id message bytes error} (delivered : Bool) : s.writer = .holding id message →
    codec.encode s.session.side id message.body.result = .ok bytes →
    Step codec s none { s with
      writer := .failed error
      outbox := if delivered then s.outbox ++ [⟨id, message, bytes⟩] else s.outbox }
  | withdraw {id message error} : s.writer = .refused id message error →
    Step codec s none { s.withSession (if message.body.isRequest then s.session.withdraw id
      else s.session) with writer := .reporting message.key (.error error.error) }
  | report {key result now} : s.writer = .reporting key result →
    Step codec s none { s.withSession (s.session.recordWrite key result now) with writer := .idle }
  | fail {error now} : s.writer = .failed error →
    Step codec s none { s.close (.transport error) now with writer := .stopped }
  | notifyDone {c callback} : c < s.session.shared.nextChannel →
    Step codec s none (s.withShared
      { s.session.shared.modify c (fun ch => { ch with registered := true }) with
        callbacks := s.session.shared.callbacks ++ [callback] })
  | notify {c callback} : c < s.session.shared.nextChannel →
    Step codec s none (s.withShared (s.session.shared.modify c fun ch =>
      { ch with registered := true, hook := some callback }))
  | callback {rest} : Step codec s none (s.withShared { s.session.shared with callbacks := rest })
  | dropPromise {c} : c < s.session.shared.nextChannel →
    (s.session.shared.channels c).holder = .caller →
    Step codec s none (s.withShared (s.session.shared.modify c fun ch =>
      { ch with holder := .dropping, hook := none }))
  | dropReceiver {c} : c < s.session.shared.nextChannel →
    (s.session.shared.channels c).holder = .dropping →
    Step codec s none (s.withShared (((s.session.shared.channels c).buffer.elim s.session.shared
      s.session.shared.releaseResult).modify c fun ch =>
        { ch with holder := .gone, receiver := false, buffer := none }))
  | wait {c result} : c < s.session.shared.nextChannel →
    (s.session.shared.channels c).holder = .caller →
    (s.session.shared.channels c).buffer = some result →
    Step codec s none (s.withShared (s.session.shared.modify c fun ch =>
      { ch with
        holder := .taken result, receiver := false, buffer := none, hook := none }))
  /-- An error, or a written reply, carries no bytes. -/
  | read {c result} : c < s.session.shared.nextChannel →
    (s.session.shared.channels c).holder = .taken result →
    (∀ message, result ≠ .ok (.response message)) →
    Step codec s none
      (s.withShared (s.session.shared.modify c fun ch => { ch with holder := .gone }))
  /-- A response is released and decoded. -/
  | readResponse {c message} : c < s.session.shared.nextChannel →
    (s.session.shared.channels c).holder = .taken (.ok (.response message)) →
    Step codec s none (s.withShared ((s.session.shared.modify c fun ch =>
      { ch with holder := .gone }).release message))
  /-- A malformed response leaves the session to be closed. -/
  | readMalformed {c message} : c < s.session.shared.nextChannel →
    (s.session.shared.channels c).holder = .taken (.ok (.response message)) →
    codec.decode s.session.side message.bytes = none →
    Step codec s none { s.withShared ((s.session.shared.modify c fun ch =>
      { ch with holder := .gone }).release message) with
        owed := s.owed ++ [⟨.malformed, none⟩] }

/-! ### Every step is one of these -/

theorem submitStep_cases {a : Action M} (h : s.submitStep codec a = .next s') :
    Step codec s (input a) s' := by
  cases a with
  | request message deadline now =>
    simp only [Sys.submitStep] at h
    split at h
    · cases h; exact .unchanged
    · next session hs => cases h; exact .request hs
  | respond id result deadline now =>
    simp only [Sys.submitStep] at h
    split at h
    · next hm =>
      split at h
      · cases h; exact .abandon hm
      · next session hs => cases h; exact .respond hm hs
    · cases h
  | dropResponder id =>
    simp only [Sys.submitStep] at h
    split at h
    · next hm => cases h; exact .abandon hm
    · cases h
  | recv =>
    simp only [Sys.submitStep] at h
    split at h
    · cases h
    · next hr =>
      split at h
      · cases h
      · next session taken hs => cases h; exact .recv (by simpa using hr) hs
  | decode =>
    simp only [Sys.submitStep] at h
    split at h
    · cases h
    · next id message hr => cases h; exact .decode hr
  | autoreplyTimeout i now =>
    simp only [Sys.submitStep] at h
    split at h
    · next id error ha =>
      split at h
      · next ht => cases h; exact .autoreplyDropped ha ht
      · next timeout _ => cases h; exact .autoreplyTimed ha
    · cases h
  | autoreplyQueue i now =>
    simp only [Sys.submitStep] at h
    split at h
    · next id error deadline ha =>
      cases h
      simp only [Sys.queueAutoreply]
      split
      · next e he => exact .autoreplyRefused ha he
      · next session hs => exact .autoreplyQueued ha hs
    · cases h
  | _ => simp [Sys.submitStep] at h

theorem readerStep_cases {a : Action M} (h : s.readerStep codec a = .next s') :
    Step codec s (input a) s' := by
  cases a with
  | message bytes now =>
    simp only [Sys.readerStep] at h
    split at h
    · cases h
    · next session error hm => cases h; exact .messageRefused hm
    · next session hm => cases h; exact .messageRouted hm
    · next session id hm => cases h; exact .messageUnknown hm
  | lost error now => cases h; exact .close (.inr ⟨error, rfl⟩)
  | close now => cases h; exact .close (.inl rfl)
  | closeOwed i now =>
    simp only [Sys.readerStep] at h
    split at h
    · cases h
    · next error responder ho =>
      split at h
      · cases h; exact .closeOwed ho
      · cases h; exact .closeReceive ho
  | discard =>
    simp only [Sys.readerStep] at h
    split at h
    · cases h
    · next envelope rest hd => cases h; exact .discard hd
  | setInboundLimits requests bytes now => cases h; exact .setInboundLimits
  | setAutoreplyTimeout timeout => cases h; exact .setAutoreplyTimeout
  | expire now => cases h; exact .expire
  | _ => simp [Sys.readerStep] at h

theorem writerStep_cases {a : Action M} (h : s.writerStep codec a = .next s') :
    Step codec s (input a) s' := by
  cases a with
  | pickup now =>
    simp only [Sys.writerStep] at h
    split at h
    · next hw =>
      split at h
      · cases h
      · next session hn => cases h; exact .pickupClosed hw hn
      · next session hn => cases h; exact .pickupNone hw hn (.inl rfl)
      · next session hn => cases h; exact .pickupNone hw hn (.inr rfl)
      · next session id message hn => cases h; exact .pickup hw hn
    · cases h
  | send result delivered =>
    simp only [Sys.writerStep] at h
    split at h
    · next id message hw =>
      split at h
      · next error he => cases h; exact .refuse hw he
      · next bytes he =>
        split at h
        · cases h; exact .send hw he
        · cases h; exact .sendFailed delivered hw he
    · cases h
  | withdraw =>
    simp only [Sys.writerStep] at h
    split at h
    · next id message error hw => cases h; exact .withdraw hw
    · cases h
  | report now =>
    simp only [Sys.writerStep] at h
    split at h
    · next key result hw => cases h; exact .report hw
    · cases h
  | fail now =>
    simp only [Sys.writerStep] at h
    split at h
    · next error hw => cases h; exact .fail hw
    · cases h
  | _ => simp [Sys.writerStep] at h

theorem readResult_cases {c : ℕ} {result : Except Error PromiseResult} {response : Bool}
    (hc : c < s.session.shared.nextChannel)
    (hr : (s.session.shared.channels c).holder = .taken result)
    (h : s.readResult codec c response result = .next s') : Step codec s none s' := by
  unfold Sys.readResult at h
  dsimp only at h
  split at h
  · cases h; exact .read hc hr (by simp)
  · next message =>
    split at h
    · split at h
      · cases h; exact .readResponse hc hr
      · next hd => cases h; exact .readMalformed hc hr hd
    · cases h
  · split at h
    · cases h
    · cases h; exact .read hc hr (by simp)

theorem promiseStep_cases {a : Action M} (h : s.promiseStep codec a = .next s') :
    Step codec s (input a) s' := by
  cases a with
  | notify c callback =>
    simp only [Sys.promiseStep] at h
    split at h
    · next hc =>
      split at h
      · cases h
      · split at h
        · cases h; exact .notifyDone hc.1
        · cases h; exact .notify hc.1
    · cases h
  | callback =>
    simp only [Sys.promiseStep] at h
    split at h
    · cases h
    · cases h; exact .callback
  | dropPromise c =>
    simp only [Sys.promiseStep] at h
    split at h
    · next hc => cases h; exact .dropPromise hc.1 hc.2
    · cases h
  | dropReceiver c =>
    simp only [Sys.promiseStep] at h
    split at h
    · next hc => cases h; exact .dropReceiver hc.1 hc.2
    · cases h
  | wait c =>
    simp only [Sys.promiseStep] at h
    split at h
    · next hc =>
      split at h
      · next result hb => cases h; exact .wait hc.1 hc.2 hb
      · split at h
        · cases h
        · split at h <;> cases h
    · cases h
  | read c =>
    simp only [Sys.promiseStep] at h
    split at h
    · next hc =>
      split at h
      · next result hr => exact readResult_cases hc hr h
      · cases h
    · cases h
  | _ => simp [Sys.promiseStep] at h

/-- **A step has one of the effects listed.** -/
theorem step_cases {a : Action M} (h : s.step codec a = .next s') : Step codec s (input a) s' := by
  unfold Sys.step at h
  split at h
  iterate 7 exact submitStep_cases h
  iterate 8 exact readerStep_cases h
  iterate 5 exact writerStep_cases h
  all_goals exact promiseStep_cases h

/-- The invariant rule over `Step`. -/
theorem reachable_invariant {side : Side} {I : Sys M → Prop} (h0 : I (.new side))
    (hs : ∀ s i s', I s → Step codec s i s' → I s') (h : (machine codec side).Reachable s) : I s :=
  Machine.Reachable.invariant (I := I) h0 (fun _ _ _ _ hi hstep => hs _ _ _ hi (step_cases hstep)) h

end ArkWire.Protocol.Steps
