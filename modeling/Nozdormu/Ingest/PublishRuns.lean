import Nozdormu.Data.Runs
import Nozdormu.Ingest.SrtSession

/-!
# Publish sessions over one store

Any number of RTMP and SRT connections, interleaved event by event, and every way a connection
ends: closed by the peer, publish finished, an error of the socket or of the protocol, a publish
request that is refused. An event that returns an error ends its session where it stands.
-/

namespace Nozdormu.Ingest

open Rust Data Bmff LiveStreamStore

inductive PublishSession where
  | rtmp (s : Session)
  | srt (s : SrtSession)
deriving DecidableEq, Repr

structure Publishers where
  store : LiveStreamStore
  /-- one entry for each connection; `none` once it has ended -/
  sessions : List (Option PublishSession)
deriving DecidableEq, Repr

inductive PublishAction where
  | rtmpConnect
  | rtmpEvent (i : Nat) (event : SessionEvent)
  /-- the peer closed the connection -/
  | rtmpClose (i : Nat)
  /-- reading, writing or the protocol failed -/
  | rtmpAbort (i : Nat)
  | srtConnect (streamId : String) (accept : Option String)
  | srtMessage (i : Nat) (data : Bytes)
  /-- the connection was closed, or receiving failed -/
  | srtEnd (i : Nat)
deriving DecidableEq, Repr

namespace Publishers

variable (p : Profile) (env : SessionEnv)

variable (sys : Publishers)

def session (i : Nat) : Option PublishSession := sys.sessions[i]?.join

def drop (i : Nat) : Publishers := { sys with sessions := sys.sessions.set i none }

/-- A session that returned goes on, one that did not is over. -/
def resume (i : Nat) : Exec IngestError PublishSession → Publishers
  | .ok (.rtmp s) => ⟨s.store, sys.sessions.set i (some (.rtmp s))⟩
  | .ok (.srt s) => ⟨s.store, sys.sessions.set i (some (.srt s))⟩
  | .error _ => sys.drop i

def step : PublishAction → Publishers
  | .rtmpConnect => { sys with sessions := sys.sessions ++ [some (.rtmp (.new sys.store))] }
  | .rtmpEvent i event =>
    match sys.session i with
    | some (.rtmp s) =>
      sys.resume i do return .rtmp (← Session.handleEvent p env { s with store := sys.store } event)
    | _ => sys
  | .rtmpClose i =>
    match sys.session i with
    | some (.rtmp s) => { sys.drop i with store :=
        (Session.disconnect { s with store := sys.store }).store }
    | _ => sys
  | .rtmpAbort i =>
    match sys.session i with
    | some (.rtmp _) => sys.drop i
    | _ => sys
  | .srtConnect streamId accept =>
    match SrtSession.start env.config sys.store streamId accept with
    | .ok s => ⟨s.store, sys.sessions ++ [some (.srt s)]⟩
    | .error _ => { sys with sessions := sys.sessions ++ [none] }
  | .srtMessage i data =>
    match sys.session i with
    | some (.srt s) =>
      sys.resume i do return .srt (← SrtSession.receive p { s with store := sys.store } data).2
    | _ => sys
  | .srtEnd i =>
    match sys.session i with
    | some (.srt s) => { sys.drop i with store :=
        (SrtSession.finish { s with store := sys.store }).store }
    | _ => sys

def run (actions : List PublishAction) : Publishers := actions.foldl (step p env) sys

end Publishers

/-! ## What is created -/

/-- The key is valid, its stream is not in the map, and there is room for it. -/
def Admits (config : IngestConfig) (store : LiveStreamStore) (app streamKey : String) : Prop :=
  ∃ app' name, validateStreamKey config.streamKeys app streamKey = .ok (app', name) ∧
    store.streams.length < store.maxStreams ∧
    store.streams.lookup (LiveStreamStore.streamKey app' name) = none

def Publishers.Accepts (env : SessionEnv) (sys : Publishers) : PublishAction → Prop
  | .rtmpEvent i (.publishStreamRequested streamKey) =>
    ∃ s, sys.session i = some (.rtmp s) ∧
      Session.logPublishRequest env.infoEnabled streamKey = .ok () ∧
      Admits env.config sys.store s.appName streamKey
  | .srtConnect streamId none =>
    ∃ app streamKey, parseStreamId streamId = .ok (app, streamKey) ∧
      Admits env.config sys.store app streamKey
  | _ => False

variable {store : LiveStreamStore} {handle : Nat} {app : String}

namespace LiveStreamStore

theorem streams_endStream (store : LiveStreamStore) (app name : String) :
    (store.endStream app name).streams = store.streams := by
  unfold endStream
  split <;> rfl

theorem streams_modifyStream {store' : LiveStreamStore}
    {f : LiveStream → Exec IngestError LiveStream}
    (h : Session.modifyStream store handle f = .ok store') : store'.streams = store.streams := by
  unfold Session.modifyStream at h
  split at h
  next => rw [← Except.ok.inj h]
  next stream _ =>
    obtain ⟨stream', -, h⟩ := bind_eq_ok.1 h
    rw [← Except.ok.inj h]

theorem createStream_eq_ok {store' : LiveStreamStore} {name : String}
    {segmentDuration partDuration : Float} {llHls : Bool}
    (h : store.createStream app name segmentDuration partDuration llHls = .ok (handle, store')) :
    store.streams.length < store.maxStreams ∧ store.streams.lookup (streamKey app name) = none ∧
      store'.streams = (streamKey app name, handle) :: store.streams := by
  obtain ⟨hroom, h⟩ := ensure_bind_eq_ok.1 h
  obtain ⟨hnone, h⟩ := ensure_bind_eq_ok.1 h
  obtain ⟨rfl, rfl⟩ := ok_pair_inj h
  exact ⟨hroom, Option.isNone_iff_eq_none.1 hnone, rfl⟩

theorem returns_createStream {name : String} (segmentDuration partDuration : Float) (llHls : Bool)
    (hroom : store.streams.length < store.maxStreams)
    (hnone : store.streams.lookup (streamKey app name) = none) :
    Returns (store.createStream app name segmentDuration partDuration llHls) := by
  rw [createStream, ensure, if_pos hroom, ok_bind, ensure, if_pos (by rw [hnone]; rfl), ok_bind]
  exact ⟨_, rfl⟩

end LiveStreamStore

def KeyAdded (before after : LiveStreamStore) : Prop :=
  ∃ app name handle, before.streams.lookup (streamKey app name) = none ∧
    after.streams = (streamKey app name, handle) :: before.streams

variable {s : Session} {streamKey : String} {p : Profile} {env : SessionEnv}

namespace Session

theorem streams_receive {s' : Session} {tag : Exec IngestError FlvTag}
    (h : s.receive p tag = .ok s') : s'.store.streams = s.store.streams := by
  unfold receive at h
  split at h
  next segmenter handle _ _ =>
    obtain ⟨tag', -, h⟩ := bind_eq_ok.1 h
    cases tag' with
    | ignored | videoConfig | audioConfig => rw [← Except.ok.inj h]
    | frame f =>
      obtain ⟨⟨out, segmenter'⟩, -, h⟩ := bind_eq_ok.1 h
      obtain ⟨store, hstore, h⟩ := bind_eq_ok.1 h
      rw [← Except.ok.inj h]
      exact streams_modifyStream hstore
  next => rw [← Except.ok.inj h]

end Session

namespace SrtSession

variable {config : IngestConfig} {streamId : String}

theorem returns_start (hparse : parseStreamId streamId = .ok (app, streamKey))
    (hadmits : Admits config store app streamKey) :
    Returns (start config store streamId none) := by
  obtain ⟨app', name, hvalid, hroom, hnone⟩ := hadmits
  rw [start, hparse, ok_bind]
  show Returns (validateStreamKey config.streamKeys app streamKey >>= _)
  rw [hvalid, ok_bind]
  exact (returns_createStream _ _ _ hroom hnone).bind fun _ _ => ⟨_, rfl⟩

theorem streams_pushFrames : ∀ {frames : List FrameData} {s s' : SrtSession}
    {outs : List SegmenterOutput}, s.pushFrames p frames = .ok (outs, s') →
    s'.store.streams = s.store.streams := by
  intro frames
  induction frames with
  | nil =>
    intro s s' outs h
    obtain ⟨-, rfl⟩ := ok_pair_inj h
    rfl
  | cons frame frames ih =>
    intro s s' outs h
    obtain ⟨⟨out, segmenter⟩, -, h⟩ := bind_eq_ok.1 h
    obtain ⟨store, hstore, h⟩ := bind_eq_ok.1 h
    obtain ⟨⟨outs', s''⟩, hrest, h⟩ := bind_eq_ok.1 h
    obtain ⟨-, rfl⟩ := ok_pair_inj h
    exact (ih hrest).trans (streams_modifyStream hstore)

theorem streams_receive {s s' : SrtSession} {data : Bytes}
    {outs : List SegmenterOutput} (h : s.receive p data = .ok (outs, s')) :
    s'.store.streams = s.store.streams := by
  obtain ⟨⟨frames, demuxer⟩, -, h⟩ := bind_eq_ok.1 h
  exact streams_pushFrames (s := { s with demuxer }) h

end SrtSession

namespace Publishers

variable {p : Profile} {env : SessionEnv}

theorem step_publish (p : Profile) (env : SessionEnv) (sys : Publishers) {i : Nat}
    (hsession : sys.session i = some (.rtmp s)) (streamKey : String) :
    (sys.Accepts env (.rtmpEvent i (.publishStreamRequested streamKey)) ∧
        KeyAdded sys.store
        (sys.step p env (.rtmpEvent i (.publishStreamRequested streamKey))).store) ∨
      (¬ sys.Accepts env (.rtmpEvent i (.publishStreamRequested streamKey)) ∧
        (sys.step p env (.rtmpEvent i (.publishStreamRequested streamKey))).store.streams
          = sys.store.streams) := by
  rw [step, hsession]
  cases hresult : Session.handleEvent p env { s with store := sys.store }
      (.publishStreamRequested streamKey) with
  | ok s' =>
    simp only [hresult]
    obtain ⟨⟨⟩, hlog, h⟩ := bind_eq_ok.1 hresult
    obtain ⟨⟨app, name⟩, hvalid, h⟩ := bind_eq_ok.1 h
    obtain ⟨⟨handle, store⟩, hcreate, h⟩ := bind_eq_ok.1 h
    cases h
    obtain ⟨hroom, hnone, hstreams⟩ := createStream_eq_ok hcreate
    exact .inl ⟨⟨s, hsession, hlog, app, name, hvalid, hroom, hnone⟩,
      ⟨app, name, handle, hnone, hstreams⟩⟩
  | error e =>
    refine .inr ⟨?_, by simp only [hresult]; rfl⟩
    rintro ⟨s₁, hs₁, hlog, hadmits⟩
    have heq := Option.mem_unique hsession hs₁
    injection heq with heq
    subst heq
    obtain ⟨app, name, hvalid, hroom, hnone⟩ := hadmits
    have hreturns : Returns ({ s with store := sys.store }.publish env streamKey) := by
      rw [Session.publish, hlog, ok_bind, hvalid, ok_bind]
      exact (returns_createStream _ _ _ hroom hnone).bind fun _ _ => ⟨_, rfl⟩
    obtain ⟨s', hs'⟩ := hreturns
    cases hresult.symm.trans hs'

theorem step_event (p : Profile) (env : SessionEnv) (sys : Publishers) (i : Nat)
    {event : SessionEvent} (hevent : ∀ streamKey, event ≠ .publishStreamRequested streamKey) :
    ¬ sys.Accepts env (.rtmpEvent i event) ∧
      (sys.step p env (.rtmpEvent i event)).store.streams = sys.store.streams := by
  constructor
  · cases event with
    | publishStreamRequested streamKey => exact absurd rfl (hevent streamKey)
    | connectionRequested | videoDataReceived | audioDataReceived | publishStreamFinished =>
      exact id
  rw [step]
  split
  next s _ =>
    cases hresult : Session.handleEvent p env { s with store := sys.store } event with
    | error e => rfl
    | ok s' =>
      cases event with
      | connectionRequested appName => cases hresult; rfl
      | publishStreamRequested streamKey => exact absurd rfl (hevent streamKey)
      | videoDataReceived | audioDataReceived => exact Session.streams_receive hresult
      | publishStreamFinished =>
        cases hresult
        exact streams_endStream ..
  next => rfl

theorem step_srtConnect (p : Profile) (env : SessionEnv) (sys : Publishers) (streamId : String)
    (accept : Option String) :
    (sys.Accepts env (.srtConnect streamId accept) ∧
        KeyAdded sys.store (sys.step p env (.srtConnect streamId accept)).store) ∨
      (¬ sys.Accepts env (.srtConnect streamId accept) ∧
        (sys.step p env (.srtConnect streamId accept)).store.streams = sys.store.streams) := by
  rw [step]
  cases hstart : SrtSession.start env.config sys.store streamId accept with
  | ok s =>
    obtain ⟨⟨app, streamKey⟩, hparse, h⟩ := bind_eq_ok.1 hstart
    obtain ⟨⟨app', name⟩, hvalid, h⟩ := bind_eq_ok.1 h
    cases accept with
    | some e => cases h
    | none =>
      obtain ⟨⟨handle, store'⟩, hcreate, h⟩ := bind_eq_ok.1 h
      cases h
      obtain ⟨hroom, hnone, hstreams⟩ := createStream_eq_ok hcreate
      exact .inl ⟨⟨app, streamKey, hparse, app', name, hvalid, hroom, hnone⟩,
        ⟨app', name, handle, hnone, hstreams⟩⟩
  | error e =>
    refine .inr ⟨?_, rfl⟩
    cases accept with
    | some e => exact id
    | none =>
      rintro ⟨app, streamKey, hparse, hadmits⟩
      obtain ⟨s, hs⟩ := SrtSession.returns_start hparse hadmits
      have hok := hstart.symm.trans hs
      cases hok

theorem step_cases (p : Profile) (env : SessionEnv) (sys : Publishers) (action : PublishAction) :
    (sys.Accepts env action ∧ KeyAdded sys.store (sys.step p env action).store) ∨
      (¬ sys.Accepts env action ∧ (sys.step p env action).store.streams = sys.store.streams) := by
  cases action with
  | rtmpConnect => exact .inr ⟨id, rfl⟩
  | rtmpEvent i event =>
    by_cases hpublish : ∃ s streamKey, sys.session i = some (.rtmp s) ∧
        event = .publishStreamRequested streamKey
    · obtain ⟨s, streamKey, hsession, rfl⟩ := hpublish
      exact step_publish p env sys hsession streamKey
    cases event with
    | publishStreamRequested streamKey =>
      -- there is no such session
      have hnone : ∀ s, sys.session i ≠ some (.rtmp s) :=
        fun s hs => hpublish ⟨s, streamKey, hs, rfl⟩
      refine .inr ⟨fun h => h.elim fun s hs => hnone s hs.1, ?_⟩
      rw [step]
      split
      next s hs => exact absurd hs (hnone s)
      next => rfl
    | connectionRequested | videoDataReceived | audioDataReceived | publishStreamFinished =>
      exact .inr (step_event p env sys i nofun)
  | rtmpClose i =>
    refine .inr ⟨id, ?_⟩
    rw [step]
    split
    · dsimp only [Session.disconnect]
      split
      · rfl
      · exact streams_endStream ..
    · rfl
  | rtmpAbort i =>
    refine .inr ⟨id, ?_⟩
    rw [step]
    split <;> rfl
  | srtConnect streamId accept => exact step_srtConnect p env sys streamId accept
  | srtMessage i data =>
    refine .inr ⟨id, ?_⟩
    rw [step]
    split
    next s _ =>
      cases hresult : SrtSession.receive p { s with store := sys.store } data with
      | ok r => exact SrtSession.streams_receive hresult
      | error e => rfl
    next => rfl
  | srtEnd i =>
    refine .inr ⟨id, ?_⟩
    rw [step]
    split
    · exact streams_endStream ..
    · rfl

theorem lookup_step {sys : Publishers} {key : String} (action : PublishAction)
    (h : sys.store.streams.lookup key = some handle) :
    (sys.step p env action).store.streams.lookup key = some handle := by
  rcases step_cases p env sys action with ⟨-, app, name, new, hnone, hstreams⟩ | ⟨-, hstreams⟩
  · have hne : key ≠ streamKey app name := by
      rintro rfl
      rw [h] at hnone
      cases hnone
    rw [hstreams, List.lookup_cons, beq_eq_false_iff_ne.2 hne]
    exact h
  · rw [hstreams, h]

theorem lookup_run {key : String} : ∀ {actions : List PublishAction} {sys : Publishers},
    sys.store.streams.lookup key = some handle →
    (sys.run p env actions).store.streams.lookup key = some handle := by
  exact fun h => List.foldlRecOn
    (motive := fun sys : Publishers => sys.store.streams.lookup key = some handle) _ _ h
    fun _ h action _ => lookup_step action h

theorem streams_run : ∀ {actions : List PublishAction} {sys : Publishers},
    (∀ before action, before ++ [action] <+: actions → ¬ (sys.run p env before).Accepts env action)
      →
    (sys.run p env actions).store.streams = sys.store.streams := by
  intro actions sys h
  have hstep : ∀ (s : Publishers) action, s.store.streams = sys.store.streams →
      ¬ s.Accepts env action →
      (s.step p env action).store.streams = sys.store.streams := by
    intro s action hs hnot
    rcases step_cases p env s action with ⟨haccepts, -⟩ | ⟨-, hstreams⟩
    · exact absurd haccepts hnot
    · exact hstreams.trans hs
  exact forall_prefix_of_allowed hstep rfl h actions (List.prefix_refl actions)

/-- Every stream that was created since `start` is ended, and its name can be published again. -/
def NamesFree (start sys : Publishers) : Prop :=
  ∀ app name handle, start.store.streams.lookup (LiveStreamStore.streamKey app name) = none →
    sys.store.streams.lookup (LiveStreamStore.streamKey app name) = some handle →
    (∃ stream, sys.store.objects[handle]? = some stream ∧ stream.ended = true) ∧
      ∀ segmentDuration partDuration llHls,
        Returns (sys.store.createStream app name segmentDuration partDuration llHls)

theorem not_namesFree_of_accepts {start : Publishers} {before : List PublishAction}
    {action : PublishAction} (h : (start.run p env before).Accepts env action)
    (after : List PublishAction) :
    ¬ start.NamesFree (start.run p env (before ++ action :: after)) := by
  intro hfree
  rcases step_cases p env (start.run p env before) action with
    ⟨-, app, name, handle, hnone, hstreams⟩ | ⟨hnot, -⟩
  · have hstart : start.store.streams.lookup (streamKey app name) = none := by
      by_contra hsome
      obtain ⟨old, hold⟩ := Option.ne_none_iff_exists'.1 hsome
      rw [lookup_run hold] at hnone
      cases hnone
    have hrun : start.run p env (before ++ action :: after)
        = ((start.run p env before).step p env action).run p env after := by
      rw [run, List.foldl_append]
      rfl
    have hfinal : (start.run p env (before ++ action :: after)).store.streams.lookup
        (streamKey app name) = some handle := by
      rw [hrun]
      refine lookup_run ?_
      rw [hstreams, List.lookup_cons_self]
    obtain ⟨⟨new, store'⟩, hcreate⟩ := (hfree app name handle hstart hfinal).2 0.0 0.0 false
    rw [(createStream_eq_ok hcreate).2.1] at hfinal
    cases hfinal
  · exact hnot h

/-- **Names are free again** after a run exactly if no publish request of the run was accepted. -/
theorem namesFree_iff (p : Profile) (env : SessionEnv) (start : Publishers)
    (actions : List PublishAction) :
    start.NamesFree (start.run p env actions) ↔
      ∀ before action, before ++ [action] <+: actions →
        ¬ (start.run p env before).Accepts env action := by
  constructor
  · intro hfree before action hle haccepts
    obtain ⟨after, rfl⟩ := hle
    rw [List.append_assoc] at hfree
    exact not_namesFree_of_accepts haccepts after hfree
  · intro hnone app name handle hstart hfinal
    rw [streams_run hnone, hstart] at hfinal
    cases hfinal

def publishCam (ending : PublishAction) : List PublishAction :=
  [.rtmpConnect, .rtmpEvent 0 (.connectionRequested "live"),
    .rtmpEvent 0 (.publishStreamRequested "key"), ending]

/-- No session is left in either case. -/
theorem namesFree_cam_fails : let env : SessionEnv := ⟨camConfig, fun _ => .error "", false⟩
    let closed := run .release env ⟨.new 5 5, []⟩ (publishCam (.rtmpClose 0))
    let broken := run .release env ⟨.new 5 5, []⟩ (publishCam (.rtmpAbort 0))
    closed.sessions = [none] ∧ closed.store.objects.map (·.ended) = [true] ∧
      ¬ NamesFree ⟨.new 5 5, []⟩ closed ∧
      broken.sessions = [none] ∧ broken.store.objects.map (·.ended) = [false] ∧
      ¬ NamesFree ⟨.new 5 5, []⟩ broken := by
  intro env closed broken
  have haccepts : (run .release env ⟨.new 5 5, []⟩
      [.rtmpConnect, .rtmpEvent 0 (.connectionRequested "live")]).Accepts env
        (.rtmpEvent 0 (.publishStreamRequested "key")) :=
    ⟨_, rfl, rfl, "live", "cam", by decide, by decide, by decide⟩
  refine ⟨by decide, by decide, ?_, by decide, by decide, ?_⟩
  · exact not_namesFree_of_accepts haccepts [.rtmpClose 0]
  · exact not_namesFree_of_accepts haccepts [.rtmpAbort 0]

end Publishers

end Nozdormu.Ingest
