/-
What the tasks of a session come to.

Each task is described once by what it gives and by the session it leaves, so
that statements about runs of tasks need not open them again.  Receiving is the
same for both versions up to the marker that is waited for and the way in which
the message is taken from its frame:

* `receive_eq` — an open session waits for the marker and unwraps the frame;
* `receive_hit`, `receive_miss` — what that comes to on a flowing link;
* `send_dispatch` — a payload is refused, or its frame is passed to the link in one call;
* `sendHello_eq`, `receiveHello_eq` — introductions are messages, recorded at the end.
-/
import NetconfWire.Proofs.Waiting
import NetconfWire.Session.Exchange

namespace NetconfWire

/-! ### Work in sequence -/

section Sequence

variable {ε σ α β : Type} {x : EStateM ε σ α} {f : α → EStateM ε σ β} {s s' : σ}

theorem bind_of_ok {a : α} (h : x s = .ok a s') : (x >>= f) s = f a s' := by
  show EStateM.bind x f s = _
  rw [EStateM.bind, h]

theorem bind_of_error {e : ε} (h : x s = .error e s') : (x >>= f) s = .error e s' := by
  show EStateM.bind x f s = _
  rw [EStateM.bind, h]

theorem ofExcept_ok (a : α) :
    (MonadExcept.ofExcept (.ok a : Except ε α) : EStateM ε σ α) s = .ok a s := rfl

theorem get_eq : (get : EStateM ε σ σ) s = .ok s s := rfl

theorem error_of_map {x : Except ε α} {g : α → β} {e : ε} (h : x.map g = .error e) :
    x = .error e := by
  cases x with
  | ok a => cases h
  | error e => cases h; rfl

end Sequence

/-! ### The marker and the message of a frame -/

namespace Version

/-- The octets that end a frame. -/
def marker : Version → Octets
  | base10 => Frame.delimiter
  | base11 => Chunk.terminator

theorem marker_ne_nil (v : Version) : v.marker ≠ [] := by
  cases v <;> decide

/-- The message in a frame that ends with the marker. -/
def unwrap (v : Version) (frame : Octets) : Except Fault Octets :=
  match v with
  | base10 => .ok (frame.take (frame.length - Frame.delimiter.length))
  | base11 => (Chunk.decode frame).map Prod.fst

end Version

/-- The line with some more notes. -/
def Line.annotate {κ : Type} (l : Line κ) (notes : List Note) : Line κ :=
  { l with journal := notes ++ l.journal }

/-- A wait for a delimiter gives the frame without it. -/
theorem Line.waitForOctets_eq {κ : Type} [Link κ] {delimiter : Octets} (hd : delimiter ≠ [])
    (l : Line κ) :
    Line.waitForOctets delimiter l
      = match Line.waitFor (Boundary.ofDelimiter delimiter) l with
        | .error f l' => .error f l'
        | .ok (frame, _) l' => .ok (frame.take (frame.length - delimiter.length)) l' := by
  have hcheck : (MonadExcept.ofExcept (Boundary.checkDelimiter delimiter) : LineTask κ Unit) l
      = .ok () l := by
    rw [Boundary.checkDelimiter, if_neg (by rwa [List.isEmpty_iff])]
    rfl
  rw [Line.waitForOctets, bind_of_ok hcheck]
  cases hw : Line.waitFor (Boundary.ofDelimiter delimiter) l with
  | error f l' => exact bind_of_error hw
  | ok found l' => exact bind_of_ok hw

namespace Session

/-- The session with another state of its line. -/
def withLine {κ : Type} (s : Session κ) (l : Line κ) : Session κ :=
  { s with line := l }

section Tasks

variable {κ : Type} {s : Session κ}

theorem checkOpen_of_open (h : s.isClosed = false) : checkOpen s = .ok () s := by
  rw [checkOpen, bind_of_ok get_eq, h]
  rfl

theorem checkOpen_of_closed (h : s.isClosed = true) : checkOpen s = .error .sessionClosed s := by
  rw [checkOpen, bind_of_ok get_eq, h]
  rfl

section OnLine

variable {α : Type} {task : LineTask κ α} {l : Line κ}

theorem onLine_of_ok {a : α} (h : task s.line = .ok a l) :
    onLine task s = .ok a (s.withLine l) := by
  simp only [onLine, h]
  rfl

theorem onLine_of_error {f : Fault} (h : task s.line = .error f l) :
    onLine task s = .error f (s.withLine l) := by
  simp only [onLine, h]
  rfl

end OnLine

/-- A session that starts has an empty window over its link and frames for base 1.0. -/
theorem start_eq {link : κ} {capabilities : Option Datum} {size limit : Int}
    (h : start link capabilities size limit = .ok s) :
    s.line.link = link ∧ s.line.window.held = [] ∧ 0 < s.line.window.quantum ∧
      (s.line.window.limit : Int) = limit ∧ s.version = .base10 ∧ s.phase = .uninitialized := by
  rw [start] at h
  cases hc : Hello.gatherCapabilities capabilities with
  | error f => rw [hc] at h; cases h
  | ok gathered =>
    rw [hc] at h
    cases hw : Window.make size limit with
    | error f => rw [hw] at h; cases h
    | ok window =>
      rw [hw] at h
      cases h
      obtain ⟨hheld, hquantum, -, hlimit⟩ := Window.make_eq_ok hw
      exact ⟨rfl, hheld, hquantum, hlimit, rfl, rfl⟩

/-! ### Receiving -/

variable [Link κ]

theorem receive_of_closed (h : s.isClosed = true) : receive s = .error .sessionClosed s :=
  bind_of_error (checkOpen_of_closed h)

theorem receiveChunked_eq (s : Session κ) :
    ∃ notes, receiveChunked s
      = match Line.waitFor (Boundary.ofDelimiter Chunk.terminator) s.line with
        | .error f l => .error f (s.withLine l)
        | .ok (frame, _) l =>
          match Version.base11.unwrap frame with
          | .error f => .error f (s.withLine l)
          | .ok message => .ok message (s.withLine (l.annotate notes)) := by
  cases hw : Line.waitFor (Boundary.ofDelimiter Chunk.terminator) s.line with
  | error f l => exact ⟨[], bind_of_error (onLine_of_error hw)⟩
  | ok found l =>
    rw [receiveChunked, bind_of_ok (onLine_of_ok hw)]
    cases hdecode : Chunk.decode found.1 with
    | error f =>
      have hunwrap : Version.base11.unwrap found.1 = .error f := by
        rw [Version.unwrap, hdecode]; rfl
      simp only [hunwrap, hdecode]
      exact ⟨[], rfl⟩
    | ok gathered =>
      obtain ⟨message, ending⟩ := gathered
      have hunwrap : Version.base11.unwrap found.1 = .ok message := by
        rw [Version.unwrap, hdecode]; rfl
      simp only [hunwrap, hdecode]
      exact ⟨(ending.note? message.length).toList, by cases ending <;> rfl⟩

theorem receiveDelimited_eq (s : Session κ) :
    receiveDelimited s
      = match Line.waitFor (Boundary.ofDelimiter Frame.delimiter) s.line with
        | .error f l => .error f (s.withLine l)
        | .ok (frame, _) l =>
          .ok (frame.take (frame.length - Frame.delimiter.length)) (s.withLine l) := by
  have hwait := Line.waitForOctets_eq (Version.marker_ne_nil .base10) s.line
  rw [Version.marker] at hwait
  cases hw : Line.waitFor (Boundary.ofDelimiter Frame.delimiter) s.line with
  | error f l => rw [hw] at hwait; exact onLine_of_error hwait
  | ok found l => rw [hw] at hwait; exact onLine_of_ok hwait

/-- An open session waits for the marker of its version and unwraps the frame; only the notes on
the way are left open here. -/
theorem receive_eq (h : s.isClosed = false) :
    ∃ notes, receive s
      = match Line.waitFor (Boundary.ofDelimiter s.version.marker) s.line with
        | .error f l => .error f (s.withLine l)
        | .ok (frame, _) l =>
          match s.version.unwrap frame with
          | .error f => .error f (s.withLine l)
          | .ok message => .ok message (s.withLine (l.annotate notes)) := by
  rw [receive, bind_of_ok (checkOpen_of_open h), bind_of_ok get_eq]
  cases s.version with
  | base10 =>
    have hframe := receiveDelimited_eq s
    -- for both versions a note of the message is the last thing
    show ∃ notes, (receiveDelimited >>= fun message => note (.received message) >>= _) s = _
    simp only [Version.marker, Version.unwrap]
    cases hw : Line.waitFor (Boundary.ofDelimiter Frame.delimiter) s.line with
    | error f l =>
      rw [hw] at hframe
      exact ⟨[], bind_of_error hframe⟩
    | ok found l =>
      rw [hw] at hframe
      exact ⟨[.received _], bind_of_ok hframe⟩
  | base11 =>
    obtain ⟨notes, hframe⟩ := receiveChunked_eq s
    show ∃ notes, (receiveChunked >>= fun message => note (.received message) >>= _) s = _
    simp only [Version.marker]
    cases hw : Line.waitFor (Boundary.ofDelimiter Chunk.terminator) s.line with
    | error f l =>
      rw [hw] at hframe
      exact ⟨[], bind_of_error hframe⟩
    | ok found l =>
      rw [hw] at hframe
      cases hunwrap : Version.base11.unwrap found.1 with
      | error f =>
        simp only [hunwrap] at hframe ⊢
        exact ⟨[], bind_of_error hframe⟩
      | ok message =>
        simp only [hunwrap] at hframe ⊢
        exact ⟨.received message :: notes, bind_of_ok hframe⟩

/-- Receiving changes nothing but the line, and of that neither the settings of the window nor
anything that every read of the link keeps. -/
theorem receive_keeps (s : Session κ) :
    ∃ l, leftBy (receive s) = s.withLine l ∧
      (l.window.limit = s.line.window.limit ∧ l.window.quantum = s.line.window.quantum) ∧
      ∀ P : κ → Prop, (∀ size k, P k → P (Link.receive size k).2) → P s.line.link → P l.link := by
  by_cases h : s.isClosed = true
  · -- a closed session does not read
    rw [receive_of_closed h]
    exact ⟨s.line, rfl, ⟨rfl, rfl⟩, fun _ _ hP => hP⟩
  · obtain ⟨notes, hreceive⟩ := receive_eq (Bool.eq_false_iff.mpr h)
    have hsettings := Line.waitFrom_settings (Boundary.ofDelimiter s.version.marker) 0
      { s.line with looks := [] }
    have hlink := fun (P : κ → Prop) hP => Line.waitFrom_link (P := P) hP
      (Boundary.ofDelimiter s.version.marker) 0 { s.line with looks := [] }
    rw [Line.waitFor] at hreceive
    rw [hreceive]
    cases hw : Line.waitFrom (Boundary.ofDelimiter s.version.marker) 0
        { s.line with looks := [] } with
    | error f l =>
      rw [hw] at hsettings hlink
      exact ⟨l, rfl, hsettings, hlink⟩
    | ok found l =>
      rw [hw] at hsettings hlink
      cases hunwrap : s.version.unwrap found.1 with
      | error f => simp only [hunwrap]; exact ⟨l, rfl, hsettings, hlink⟩
      | ok message => simp only [hunwrap]; exact ⟨l.annotate notes, rfl, hsettings, hlink⟩

/-! ### Sending, choosing a version, closing -/

theorem send_of_closed (payload : Datum) (h : s.isClosed = true) :
    send payload s = .error .sessionClosed s :=
  bind_of_error (checkOpen_of_closed h)

/-- What sending a payload comes to: it is refused without a call to the link, or its frame is
passed to the link in one call. -/
inductive Dispatch (s : Session κ) (payload : Datum) :
    EStateM.Result Fault (Session κ) Unit → Prop
  | refused {f : Fault} (notes : List Note)
    (h : s.isClosed = true ∧ f = .sessionClosed ∨
      Frame.ofPayload (.version s.version) payload = .error f) :
    Dispatch s payload (.error f (s.withLine (s.line.annotate notes)))
  | passed {frame : Octets} {link : κ} (notes : List Note)
    (hframe : Frame.ofPayload (.version s.version) payload = .ok frame)
    (hsend : Link.send frame s.line.link = (.ok (), link)) :
    Dispatch s payload (.ok () (s.withLine { s.line.annotate notes with link }))
  | failed {frame : Octets} {f : LinkFault} {link : κ} (notes : List Note)
    (hframe : Frame.ofPayload (.version s.version) payload = .ok frame)
    (hsend : Link.send frame s.line.link = (.error f, link)) :
    Dispatch s payload (.error f.fault (s.withLine { s.line.annotate notes with link }))

theorem send_dispatch (payload : Datum) (s : Session κ) : Dispatch s payload (send payload s) := by
  by_cases h : s.isClosed = true
  · rw [send_of_closed payload h]
    exact .refused [] (.inl ⟨h, rfl⟩)
  · have hnote : note (.sending payload) s = .ok () (s.withLine (s.line.note (.sending payload))) :=
      rfl
    rw [send, bind_of_ok (checkOpen_of_open (Bool.eq_false_iff.mpr h)), bind_of_ok hnote,
      bind_of_ok get_eq]
    show Dispatch s payload ((MonadExcept.ofExcept
      (Frame.ofPayload (.version s.version) payload) >>= transmit) _)
    cases hframe : Frame.ofPayload (.version s.version) payload with
    | error f => exact .refused [.sending payload] (.inr hframe)
    | ok frame =>
      rw [bind_of_ok (ofExcept_ok frame), transmit]
      split
      · next hsend => exact .passed [.sending payload] hframe hsend
      · next hsend => exact .failed [.sending payload] hframe hsend

/-- An open session passes the frame of the payload to its link. -/
theorem send_eq (store : OctetStore) (payload : Octets) (h : s.isClosed = false) :
    ∃ notes, send (.octets store payload) s
      = match Link.send (Frame.encode s.version payload) s.line.link with
        | (.ok (), link) => .ok () (s.withLine { s.line.annotate notes with link })
        | (.error f, link) =>
          .error f.fault (s.withLine { s.line.annotate notes with link }) := by
  have hframe : Frame.ofPayload (.version s.version) (.octets store payload)
      = .ok (Frame.encode s.version payload) := by
    cases s.version <;> rfl
  have hdispatch := send_dispatch (.octets store payload) s
  generalize send (.octets store payload) s = r at hdispatch ⊢
  cases hdispatch with
  | refused notes hrefused =>
    rw [h, hframe] at hrefused
    simp at hrefused
  | passed notes hpassed hsend =>
    obtain rfl := Except.ok.inj (hframe.symm.trans hpassed)
    rw [hsend]
    exact ⟨notes, rfl⟩
  | failed notes hpassed hsend =>
    obtain rfl := Except.ok.inj (hframe.symm.trans hpassed)
    rw [hsend]
    exact ⟨notes, rfl⟩

omit [Link κ] in
/-- A version is chosen, or the value is refused and the session left as it was. -/
theorem setVersion_eq (given : Datum) (s : Session κ) :
    setVersion given s
      = match Frame.version given with
        | .error f => .error f s
        | .ok version => .ok ()
          { s with line := s.line.note (.framing version)
                   version
                   phase := s.phase.afterChoice } := by
  rw [setVersion]
  cases hv : Frame.version given with
  | error f => exact bind_of_error rfl
  | ok version => exact bind_of_ok rfl

omit [Link κ] in
/-- The choice of a version touches neither the link nor the window, nor does it open or close. -/
theorem setVersion_of_ok {given : Datum} {version : Version}
    (h : Frame.version given = .ok version) (s : Session κ) :
    ∃ s', setVersion given s = .ok () s' ∧ s'.version = version ∧ s'.line.link = s.line.link ∧
      s'.line.window = s.line.window ∧ s'.isClosed = s.isClosed := by
  have hchoice := setVersion_eq given s
  rw [h] at hchoice
  refine ⟨_, hchoice, rfl, rfl, rfl, ?_⟩
  show (s.phase.afterChoice == .closed) = (s.phase == .closed)
  cases s.phase <;> rfl

theorem close_of_closed (h : s.isClosed = true) : close s = .ok () s := by
  rw [close, bind_of_ok get_eq, h]
  rfl

/-- An open session is closed before its link is, and stays closed if that fails. -/
theorem close_of_open (h : s.isClosed = false) :
    close s
      = match Link.close s.line.link with
        | (.ok (), link) =>
          .ok () { s with line := { s.line.note .closing with link }, phase := .closed }
        | (.error f, link) =>
          .error f.fault { s with line := { s.line.note .closing with link }, phase := .closed } := by
  rw [close, bind_of_ok get_eq, h, if_neg (by decide)]
  have hphase : (modify fun s => { s with phase := .closed } : SessionTask κ Unit) s
      = .ok () { s with phase := .closed } := rfl
  have hnote : note .closing { s with phase := .closed }
      = .ok () { s with line := s.line.note .closing, phase := .closed } := rfl
  rw [bind_of_ok hphase, bind_of_ok hnote, hangUp]
  rfl

/-! ### Introductions -/

theorem sendHello_of_closed (hello : Option Hello) (h : s.isClosed = true) :
    sendHello hello s = .error .sessionClosed s :=
  bind_of_error (checkOpen_of_closed h)

/-- An introduction is sent as a document, and recorded once it has been. -/
theorem sendHello_eq (hello : Option Hello) (h : s.isClosed = false) :
    sendHello hello s
      = match (hello.getD (Hello.ofParts s.capabilities .null)).write with
        | .error f => .error f s
        | .ok document =>
          match send (.octets .frozen document) s with
          | .error f s' => .error f s'
          | .ok () s' => .ok ()
            { s' with localHello := some (hello.getD (Hello.ofParts s.capabilities .null))
                      phase := s'.phase.afterHello true s'.remoteHello.isSome } := by
  rw [sendHello, bind_of_ok (checkOpen_of_open h), bind_of_ok get_eq]
  generalize hello.getD (Hello.ofParts s.capabilities .null) = introduction
  cases hwrite : introduction.write with
  | error f => exact bind_of_error rfl
  | ok document =>
    rw [bind_of_ok (ofExcept_ok document)]
    dsimp only
    cases hsend : send (.octets .frozen document) s with
    | error f s' => exact bind_of_error hsend
    | ok _ s' => exact bind_of_ok hsend

/-- The message that was received is read, and what it says is recorded. -/
theorem receiveHello_eq (s : Session κ) :
    receiveHello s
      = match receive s with
        | .error f s' => .error f s'
        | .ok message s' =>
          match Hello.read (.octets .frozen message) with
          | .error f => .error f s'
          | .ok hello => .ok hello
            { s' with remoteHello := some hello
                      phase := s'.phase.afterHello s'.localHello.isSome true } := by
  rw [receiveHello]
  cases hreceive : receive s with
  | error f s' => exact bind_of_error hreceive
  | ok message s' =>
    rw [bind_of_ok hreceive]
    dsimp only
    cases Hello.read (.octets .frozen message) <;> rfl

theorem receiveHello_of_closed (h : s.isClosed = true) :
    receiveHello s = .error .sessionClosed s := by
  rw [receiveHello_eq, receive_of_closed h]

/-! ### Receiving on a flowing link -/

section Flowing

variable [Flow κ] {k : Nat}

/-- The session is open, and octets flow from its link. -/
structure Ready (s : Session κ) : Prop where
  isOpen : s.isClosed = false
  runs : Flow.Runs s.line.link
  quantum_pos : 0 < s.line.window.quantum

/-- The message is taken from the octets up to the first marker, and those behind it are left. -/
theorem receive_hit (hs : s.Ready)
    (hk : Octets.find? s.version.marker s.line.ahead = some k)
    (hlimit : k + s.version.marker.length ≤ s.line.window.limit + 1) :
    ∃ l, l.ahead = s.line.ahead.drop (k + s.version.marker.length) ∧ Flow.Runs l.link ∧
      receive s = match s.version.unwrap (s.line.ahead.take (k + s.version.marker.length)) with
        | .error f => .error f (s.withLine l)
        | .ok message => .ok message (s.withLine l) := by
  obtain ⟨notes, hreceive⟩ := receive_eq hs.isOpen
  obtain ⟨l, hwait, hahead, hruns⟩ := Line.waitFrom_hit (Version.marker_ne_nil s.version)
    (l := { s.line with looks := [] }) hs.runs hs.quantum_pos (Nat.zero_le _)
    (by rw [List.take_zero, List.infix_nil]; exact Version.marker_ne_nil s.version) hk hlimit
  rw [Line.waitFor, hwait] at hreceive
  rw [hreceive]
  have hsame : ({ s.line with looks := [] } : Line κ).ahead = s.line.ahead := rfl
  simp only [hsame] at hahead ⊢
  cases s.version.unwrap (s.line.ahead.take (k + s.version.marker.length)) with
  | error f => exact ⟨l, hahead, hruns, rfl⟩
  | ok message => exact ⟨l.annotate notes, hahead, hruns, rfl⟩

/-- Without a marker the stream ends inside the frame, and everything is held. -/
theorem receive_miss (hs : s.Ready) (hmiss : ¬ s.version.marker <:+: s.line.ahead)
    (hlimit : s.line.ahead.length ≤ s.line.window.limit) :
    ∃ l, l.window.held = s.line.ahead ∧ l.ahead = s.line.ahead ∧ Flow.Runs l.link ∧
      receive s = .error (.frameIncomplete s.line.ahead.length) (s.withLine l) := by
  obtain ⟨notes, hreceive⟩ := receive_eq hs.isOpen
  obtain ⟨l, hwait, hheld, hahead, hruns⟩ := Line.waitFrom_miss (Version.marker_ne_nil s.version)
    (l := { s.line with looks := [] }) hs.runs hs.quantum_pos
    (Nat.zero_le s.line.window.held.length) hmiss hlimit
  rw [Line.waitFor, hwait] at hreceive
  exact ⟨l, hheld, hahead, hruns, hreceive⟩

/-- A frame in which the marker stands at the end only is received whole. -/
theorem receive_frame {frame rest : Octets} (hs : s.Ready)
    (hmarker : s.version.marker <:+ frame) (honly : Octets.OnlyEnds s.version.marker frame)
    (hahead : s.line.ahead = frame ++ rest) (hlimit : frame.length ≤ s.line.window.limit) :
    ∃ l, l.ahead = rest ∧ Flow.Runs l.link ∧
      receive s = match s.version.unwrap frame with
        | .error f => .error f (s.withLine l)
        | .ok message => .ok message (s.withLine l) := by
  obtain ⟨body, rfl⟩ := hmarker
  have hk : Octets.find? s.version.marker s.line.ahead = some body.length := by
    rw [hahead]
    exact Octets.find?_append (Version.marker_ne_nil _) honly.find?_eq
  rw [List.length_append] at hlimit
  obtain ⟨l, hrest, hruns, hreceive⟩ := receive_hit hs hk (by omega)
  rw [hahead, ← List.length_append, List.take_left] at hreceive
  rw [hahead, ← List.length_append, List.drop_left] at hrest
  exact ⟨l, hrest, hruns, hreceive⟩

end Flowing

end Tasks

end Session

end NetconfWire
