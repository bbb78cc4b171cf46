/-
Streams that come in other parts.

A test that looks at all octets held is *stable* if a place among them that it once reports it
reports of every longer string as well.  A wait with such a test looks at one prefix of the stream
after another, and which ones these are depends on the reads.  What it comes to does not, if the
test reports no places but those:

* `Line.waitFrom_settles` — a wait with such a test comes to what the test says of everything
  that lies ahead, unless the window grows beyond its limit on the way to it;
* `Regex.Stable.report` — a pattern whose matches last gives such a test;
* `Reception.waits_agree` — so two ways of cutting a stream give the same frame and the same
  captures, and leave the same octets behind it, or both end with the stream;
* `Reception.waits_disagree` — a place beyond the octets is cut down to what happens to be held.
-/
import NetconfWire.Proofs.Calls
import NetconfWire.Proofs.Matching
import NetconfWire.Proofs.Reception

namespace NetconfWire

/-! ### Stable tests -/

namespace Boundary

variable {α : Type}

/-- A test that looks at the octets held, whichever of them were searched before. -/
def ofHeld (test : Octets → Option (Int × α)) : Boundary α := fun held _ =>
  .ok (test held)

/-- The places that the test reports lie among the octets or right behind them. -/
def Inside (test : Octets → Option (Int × α)) : Prop :=
  ∀ ⦃b stop found⦄, test b = some (stop, found) → 0 ≤ stop ∧ stop ≤ b.length

/-- A place among the octets that the test reports, it reports whatever follows them. -/
def Stable (test : Octets → Option (Int × α)) : Prop :=
  ∀ ⦃b stop found⦄, test b = some (stop, found) → 0 ≤ stop → stop ≤ b.length →
    ∀ x, test (b ++ x) = some (stop, found)

theorem ofOctet_eq (p : UInt8 → Bool) :
    ofOctet p = ofHeld fun b => (endOfFirst p b).map fun n : Nat => ((n : Int), ()) := by
  funext held searched
  rw [ofOctet, ofHeld]
  cases endOfFirst p held <;> rfl

theorem inside_endOfFirst (p : UInt8 → Bool) :
    Inside fun b => (endOfFirst p b).map fun n : Nat => ((n : Int), ()) := by
  intro b stop found hreport
  obtain ⟨n, hn, hpair⟩ := Option.map_eq_some_iff.mp hreport
  obtain ⟨k, hk, rfl⟩ := Option.map_eq_some_iff.mp hn
  cases hpair
  have := (List.findIdx?_eq_some_iff_getElem.mp hk).1
  omega

/-- Where the first octet of a kind stands, it stands in all octets that begin with these. -/
theorem stable_endOfFirst (p : UInt8 → Bool) :
    Stable fun b => (endOfFirst p b).map fun n : Nat => ((n : Int), ()) := by
  intro b stop found hreport _ _ x
  obtain ⟨n, hn, hpair⟩ := Option.map_eq_some_iff.mp hreport
  obtain ⟨k, hk, rfl⟩ := Option.map_eq_some_iff.mp hn
  dsimp only
  rw [endOfFirst, List.findIdx?_append, hk]
  exact congrArg some hpair

/-- A test that reports of a single octet a place beyond it, and of other octets nothing. -/
def overLone : Octets → Option (Int × Unit)
  | [_] => some (5, ())
  | _ => none

end Boundary

namespace Regex

/-- What the first match is in some octets, it is in all octets that begin with these. -/
def Stable (r : Regex) : Prop :=
  ∀ ⦃b m⦄, r.search b = some m → ∀ x, r.search (b ++ x) = some m

/-- A pattern that spans a fixed number of octets and tests no others. -/
theorem stable_of_spans {r : Regex} {width : Nat} (h : Pattern.Spans width r.tree) : r.Stable :=
  fun _ _ hm x => search_append h x hm

/-- What a search reports to a wait: the end of the first match, and what its groups captured. -/
def report (r : Regex) (held : Octets) : Option (Int × List (Option Octets)) :=
  (r.search held).map fun m => ((m.stop : Int), m.captures)

theorem report_eq_some {r : Regex} {b : Octets} {stop : Int} {captures : List (Option Octets)} :
    r.report b = some (stop, captures) ↔
      ∃ m, r.search b = some m ∧ (m.stop : Int) = stop ∧ m.captures = captures := by
  rw [report, Option.map_eq_some_iff]
  simp only [Prod.mk.injEq]

theorem ofPattern_eq (r : Regex) : Boundary.ofPattern r = Boundary.ofHeld r.report := rfl

/-- A match ends among the octets that are searched. -/
theorem inside_report (r : Regex) : Boundary.Inside r.report := by
  intro b stop captures hreport
  obtain ⟨m, hm, rfl, -⟩ := report_eq_some.mp hreport
  have hle := stop_le_length hm
  omega

/-- A pattern whose matches last gives a stable test. -/
theorem Stable.report {r : Regex} (h : r.Stable) : Boundary.Stable r.report := by
  intro b stop captures hreport _ _ x
  obtain ⟨m, hm, hstop, hcaptures⟩ := report_eq_some.mp hreport
  exact report_eq_some.mpr ⟨m, h hm x, hstop, hcaptures⟩

end Regex

/-! ### What a wait with a stable test comes to -/

/-- The work has ended with too many octets held. -/
def Overflowed {σ α : Type} (x : EStateM.Result Fault σ α) : Prop :=
  ∃ n limit, outcomeOf x = .error (.frameTooLarge n limit)

namespace Line

variable {κ α : Type} [Link κ] [Flow κ] {test : Octets → Option (Int × α)} {stream : Octets}
  {limit : Nat} {x y : EStateM.Result Fault (Line κ) (Octets × α)}

/-- The link gives what lies ahead, and a read asks for some of it. -/
structure Flows (l : Line κ) : Prop where
  runs : Flow.Runs l.link
  quantum_pos : 0 < l.window.quantum

/-- Two lines on which the same octets are held or still to come. -/
structure Abreast (l l' : Line κ) : Prop where
  flows : l.Flows
  flows' : l'.Flows
  ahead_eq : l.ahead = l'.ahead

/-- What a wait on a stream comes to, as far as a test of the whole stream tells: the frame that
the test ends, with the octets behind it still to come, or all of the stream in the window, or more
of it than the window has room for.  The line may be waited on again. -/
inductive Settles (test : Octets → Option (Int × α)) (stream : Octets) (limit : Nat) :
    EStateM.Result Fault (Line κ) (Octets × α) → Prop
  | found {stop : Int} {found : α} {l : Line κ} (h : test stream = some (stop, found))
    (hflows : l.Flows) (hahead : l.ahead = stream.drop stop.toNat) :
    Settles test stream limit (.ok (stream.take stop.toNat, found) l)
  | ended {l : Line κ} (h : test stream = none) (hheld : l.window.held = stream)
    (hflows : l.Flows) (hahead : l.ahead = stream) :
    Settles test stream limit (.error (.frameIncomplete stream.length) l)
  | tooLarge {n : Nat} {l : Line κ} (hlimit : limit < n) (hstream : n ≤ stream.length) :
    Settles test stream limit (.error (.frameTooLarge n limit) l)

/-- A wait with a stable test comes to what the test says of all that lies ahead, unless too many
octets come to be held. -/
theorem waitFrom_settles {l : Line κ} (hinside : Boundary.Inside test) (h : Boundary.Stable test)
    (hl : l.Flows) (searched : Nat) :
    Settles test l.ahead l.window.limit (waitFrom (Boundary.ofHeld test) searched l) := by
  -- the induction is on what the link has yet to give
  induction hn : (Flow.ahead l.link).length using Nat.strongRecOn generalizing l searched with
  | _ n ih =>
    cases hheld : test l.window.held with
    | some report =>
      obtain ⟨stop, found⟩ := report
      have hlook : Boundary.ofHeld test l.window.held searched = .ok (some (stop, found)) :=
        congrArg Except.ok hheld
      -- the place lies in the window, and the test reports the same of everything ahead
      obtain ⟨hpos, hend⟩ := hinside hheld
      have hle : stop.toNat ≤ l.window.held.length := by omega
      have hplace : l.window.held.placeOf stop = stop.toNat := by
        rw [Octets.placeOf, if_neg (by omega), Nat.min_eq_left hle]
      have htake : l.window.held.take stop.toNat = l.ahead.take stop.toNat :=
        (List.take_append_of_le_length hle).symm
      rw [waitFrom_found hlook, Window.cut, hplace, htake]
      exact .found (h hheld hpos hend _) ⟨hl.runs, hl.quantum_pos⟩
        (List.drop_append_of_le_length hle).symm
    | none =>
      have hlook : Boundary.ofHeld test l.window.held searched = .ok none :=
        congrArg Except.ok hheld
      by_cases hfull : l.window.limit < l.window.held.length
      · rw [waitFrom_tooLarge hlook hfull]
        exact .tooLarge hfull (List.prefix_append _ _).length_le
      have hroom := Nat.le_of_not_lt hfull
      obtain ⟨b, link, hread, hruns', hahead, hnil⟩ :=
        Flow.receive_eq (Int.natCast_pos.mpr hl.quantum_pos) hl.runs
      rcases b with _ | ⟨y, rest⟩
      · have hall : l.ahead = l.window.held := by rw [ahead, hnil rfl, List.append_nil]
        have hrest : Flow.ahead link = [] := hahead.symm.trans (hnil rfl)
        rw [waitFrom_ended hlook hroom hread, hall]
        refine .ended hheld rfl ⟨hruns', hl.quantum_pos⟩ ?_
        show l.window.held ++ Flow.ahead link = _
        rw [hrest, List.append_nil]
      · rw [waitFrom_read hlook hroom hread, ← ahead_take hahead searched]
        exact ih _ (hn ▸ ahead_shorter hahead) (l := (l.look searched).take link (y :: rest))
          ⟨hruns', hl.quantum_pos⟩ _ rfl

theorem waitFor_settles {l : Line κ} (hinside : Boundary.Inside test) (h : Boundary.Stable test)
    (hl : l.Flows) : Settles test l.ahead l.window.limit (waitFor (Boundary.ofHeld test) l) :=
  waitFrom_settles (l := { l with looks := [] }) hinside h ⟨hl.runs, hl.quantum_pos⟩ 0

/-- A window with room for the whole stream does not overflow. -/
theorem Settles.not_overflowed (h : Settles test stream limit x) (hroom : stream.length ≤ limit) :
    ¬ Overflowed x := by
  rintro ⟨n, m, hx⟩
  cases h with
  | found => cases hx
  | ended => cases hx
  | tooLarge hlimit hstream => omega

/-- With such a window a wait gives the frame that the test ends. -/
theorem Settles.outcome_eq {stop : Int} {found : α} (h : Settles test stream limit x)
    (hroom : stream.length ≤ limit) (htest : test stream = some (stop, found)) :
    outcomeOf x = .ok (stream.take stop.toNat, found) := by
  cases h with
  | found h =>
    rw [h] at htest
    cases htest
    rfl
  | ended h =>
    rw [h] at htest
    cases htest
  | tooLarge hlimit hstream => omega

/-- Two waits give the same frame with the same findings, and the same octets are held or ahead
after them; or both end with the stream, and hold the same octets. -/
inductive Concur :
    EStateM.Result Fault (Line κ) (Octets × α) → EStateM.Result Fault (Line κ) (Octets × α) → Prop
  | found {frame : Octets} {found : α} {l l' : Line κ} (h : l.Abreast l') :
    Concur (.ok (frame, found) l) (.ok (frame, found) l')
  | ended {n : Nat} {l l' : Line κ} (h : l.Abreast l') (hheld : l.window.held = l'.window.held) :
    Concur (.error (.frameIncomplete n) l) (.error (.frameIncomplete n) l')

/-- What one test settles on one stream concurs, whatever the limits are. -/
theorem Settles.concur {limit' : Nat} (hx : Settles test stream limit x)
    (hy : Settles test stream limit' y) (hroom : ¬ Overflowed x) (hroom' : ¬ Overflowed y) :
    Concur x y := by
  cases hx with
  | found h hflows hahead =>
    cases hy with
    | found h' hflows' hahead' =>
      rw [h] at h'
      cases h'
      exact .found ⟨hflows, hflows', hahead.trans hahead'.symm⟩
    | ended h' =>
      rw [h] at h'
      cases h'
    | tooLarge => exact absurd ⟨_, _, rfl⟩ hroom'
  | ended h hheld hflows hahead =>
    cases hy with
    | found h' =>
      rw [h] at h'
      cases h'
    | ended h' hheld' hflows' hahead' =>
      exact .ended ⟨hflows, hflows', hahead.trans hahead'.symm⟩ (hheld.trans hheld'.symm)
    | tooLarge => exact absurd ⟨_, _, rfl⟩ hroom'
  | tooLarge => exact absurd ⟨_, _, rfl⟩ hroom

/-- What is found is what the test finds in the stream. -/
theorem Settles.test_eq {frame : Octets} {found : α} {l : Line κ}
    (h : Settles test stream limit (.ok (frame, found) l)) :
    ∃ stop, test stream = some (stop, found) := by
  cases h with
  | found h => exact ⟨_, h⟩

/-- Waiting for a match of a source is waiting with the test that the source is read as. -/
theorem waitForPattern_eq {κ : Type} [Link κ] {source : Octets} {p : Regex}
    (h : Regex.read false source.toText.toList = .ok p) (l : Line κ) :
    waitForPattern (.octets .frozen source) l = waitFor (Boundary.ofHeld p.report) l := by
  have hgiven : patternBoundary (.octets .frozen source) = .ok (Boundary.ofPattern p) := by
    rw [patternBoundary]
    simp only [h]
  rw [waitForPattern_of_boundary hgiven, Regex.ofPattern_eq]

end Line

/-! ### Two ways of cutting a stream -/

namespace Line

variable {κ : Type} [Link κ] [Flow κ] {l₁ l₂ : Line κ}

theorem waitFor_concur {α : Type} {test : Octets → Option (Int × α)}
    (hinside : Boundary.Inside test) (h : Boundary.Stable test) (hl : l₁.Abreast l₂)
    (hroom₁ : ¬ Overflowed (waitFor (.ofHeld test) l₁))
    (hroom₂ : ¬ Overflowed (waitFor (.ofHeld test) l₂)) :
    Concur (waitFor (.ofHeld test) l₁) (waitFor (.ofHeld test) l₂) := by
  have hsettles := waitFor_settles hinside h hl.flows'
  rw [← hl.ahead_eq] at hsettles
  exact (waitFor_settles hinside h hl.flows).concur hsettles hroom₁ hroom₂

theorem length_captures_of_waitFor {p : Regex} (hp : p.Stable) {l l' : Line κ} (hl : l.Flows)
    {frame : Octets} {captures : List (Option Octets)}
    (hfound : waitFor (.ofHeld p.report) l = .ok (frame, captures) l') :
    captures.length = p.groups := by
  have hsettles := waitFor_settles p.inside_report hp.report hl
  rw [hfound] at hsettles
  obtain ⟨stop, hreport⟩ := hsettles.test_eq
  obtain ⟨m, hm, -, rfl⟩ := Regex.report_eq_some.mp hreport
  exact Regex.length_captures hm

end Line

namespace Reception

variable {stream : Octets}

theorem flows (r : Reception stream) : r.session.line.Flows := by
  obtain ⟨hready, -, -, -⟩ := r.ready
  exact ⟨hready.runs, hready.quantum_pos⟩

theorem ahead_eq (r : Reception stream) : r.session.line.ahead = stream := by
  obtain ⟨-, -, hahead, -⟩ := r.ready
  exact hahead

/-- Two fresh sessions on one stream have the same octets before them. -/
theorem abreast (r₁ r₂ : Reception stream) : r₁.session.line.Abreast r₂.session.line :=
  ⟨r₁.flows, r₂.flows, r₁.ahead_eq.trans r₂.ahead_eq.symm⟩

/-- On a fresh session a stable test settles what a wait comes to. -/
theorem waitFor_settles {α : Type} {test : Octets → Option (Int × α)}
    (hinside : Boundary.Inside test) (h : Boundary.Stable test) (r : Reception stream) :
    Line.Settles test stream r.session.line.window.limit
      (Line.waitFor (Boundary.ofHeld test) r.session.line) := by
  have hsettles := Line.waitFor_settles hinside h r.flows
  rwa [r.ahead_eq] at hsettles

/-- **What a wait comes to does not depend on how the stream was cut.**  With a stable test of which
all places lie inside, or for a match of a pattern whose matches last, waits on two lines with the
same octets before them get the same frame and the same findings and have the same octets before them
again, or both come to the end of the stream, unless one of the windows overflows.  Fresh sessions on
a stream are such lines, whichever way it comes.  Whoever waits for a match gets an entry for each
group of the pattern. -/
theorem waits_agree :
    (∀ {stream : Octets} (r₁ r₂ : Reception stream),
      r₁.session.line.Abreast r₂.session.line) ∧
    ∀ {κ : Type} [Link κ] [Flow κ] {l₁ l₂ : Line κ}, l₁.Abreast l₂ →
      (∀ {α : Type} {test : Octets → Option (Int × α)},
        Boundary.Inside test → Boundary.Stable test →
        ¬ Overflowed (Line.waitFor (.ofHeld test) l₁) →
        ¬ Overflowed (Line.waitFor (.ofHeld test) l₂) →
        Line.Concur (Line.waitFor (.ofHeld test) l₁) (Line.waitFor (.ofHeld test) l₂)) ∧
      ∀ {source : Octets} {p : Regex}, Regex.read false source.toText.toList = .ok p → p.Stable →
        ¬ Overflowed (Line.waitForPattern (.octets .frozen source) l₁) →
        ¬ Overflowed (Line.waitForPattern (.octets .frozen source) l₂) →
        Line.Concur (Line.waitForPattern (.octets .frozen source) l₁)
          (Line.waitForPattern (.octets .frozen source) l₂) ∧
        ∀ {frame captures l},
          Line.waitForPattern (.octets .frozen source) l₁ = .ok (frame, captures) l →
          captures.length = p.groups := by
  refine ⟨abreast, fun hl => ⟨fun hinside h => Line.waitFor_concur hinside h hl,
    fun {source p} hsource hp hroom₁ hroom₂ => ?_⟩⟩
  rw [Line.waitForPattern_eq hsource] at hroom₁ hroom₂ ⊢
  rw [Line.waitForPattern_eq hsource]
  exact ⟨Line.waitFor_concur p.inside_report hp.report hl hroom₁ hroom₂,
    Line.length_captures_of_waitFor hp hl.flows⟩

/-- The stream `ab1;;` is cut inside the match of `(;);|(#)#`, of which the second group captures
nothing, or not at all. -/
theorem waits_agree_cut :
    ∃ cut whole : Reception [0x61, 0x62, 0x31, 0x3B, 0x3B],
      cut.parts = [[0x61, 0x62, 0x31, 0x3B], [0x3B]] ∧
      whole.parts = [[0x61, 0x62, 0x31, 0x3B, 0x3B]] ∧
      outcomeOf (Line.waitFor (.ofOctet (OctetKind.digit.has ·.toNat)) cut.session.line)
        = .ok ([0x61, 0x62, 0x31], ()) ∧
      Line.Concur (Line.waitFor (.ofOctet (OctetKind.digit.has ·.toNat)) cut.session.line)
        (Line.waitFor (.ofOctet (OctetKind.digit.has ·.toNat)) whole.session.line) ∧
      outcomeOf (Line.waitForPattern
          (.octets .frozen [0x28, 0x3B, 0x29, 0x3B, 0x7C, 0x28, 0x23, 0x29, 0x23])
          cut.session.line)
        = .ok ([0x61, 0x62, 0x31, 0x3B, 0x3B], [some [0x3B], none]) ∧
      Line.Concur
        (Line.waitForPattern
          (.octets .frozen [0x28, 0x3B, 0x29, 0x3B, 0x7C, 0x28, 0x23, 0x29, 0x23])
          cut.session.line)
        (Line.waitForPattern
          (.octets .frozen [0x28, 0x3B, 0x29, 0x3B, 0x7C, 0x28, 0x23, 0x29, 0x23])
          whole.session.line) := by
  let cut : Reception [0x61, 0x62, 0x31, 0x3B, 0x3B] :=
    ofParts [[0x61, 0x62, 0x31, 0x3B], [0x3B]] (by decide)
  let whole : Reception [0x61, 0x62, 0x31, 0x3B, 0x3B] :=
    ofParts [[0x61, 0x62, 0x31, 0x3B, 0x3B]] (by decide)
  have hlimit : 5 ≤ cut.session.line.window.limit := by decide
  have hlimit' : 5 ≤ whole.session.line.window.limit := by decide
  let digitEnd (b : Octets) : Option (Int × Unit) :=
    (Boundary.endOfFirst (OctetKind.digit.has ·.toNat) b).map fun n : Nat => ((n : Int), ())
  have hinside : Boundary.Inside digitEnd := Boundary.inside_endOfFirst _
  have hdigit : Boundary.Stable digitEnd := Boundary.stable_endOfFirst _
  have hthree : digitEnd [0x61, 0x62, 0x31, 0x3B, 0x3B] = some (3, ()) := by decide
  let sign (n : Nat) : Pattern := .one ⟨false, [.code n], false⟩
  let p : Regex := ⟨.alt (.seq (.group 1 (sign 0x3B)) (sign 0x3B))
    (.seq (.group 2 (sign 0x23)) (sign 0x23)), 2⟩
  have hsource : Regex.read false
      (Octets.toText [0x28, 0x3B, 0x29, 0x3B, 0x7C, 0x28, 0x23, 0x29, 0x23]).toList = .ok p := by
    decide +kernel
  have hspans : Pattern.Spans 2 p.tree :=
    .alt (.seq (.group 1 (.one _)) (.one _)) (.seq (.group 2 (.one _)) (.one _))
  have hp := Regex.stable_of_spans hspans
  have hfive : p.report [0x61, 0x62, 0x31, 0x3B, 0x3B] = some (5, [some [0x3B], none]) := by decide
  have hsettles := cut.waitFor_settles p.inside_report hp.report
  obtain ⟨habreast, hwaits⟩ := waits_agree
  have hagree := hwaits (habreast cut whole)
  refine ⟨cut, whole, rfl, rfl, ?_, ?_, ?_, (hagree.2 hsource hp ?_ ?_).1⟩
  · rw [Boundary.ofOctet_eq]
    exact (cut.waitFor_settles hinside hdigit).outcome_eq hlimit hthree
  · rw [Boundary.ofOctet_eq]
    exact hagree.1 hinside hdigit
      ((cut.waitFor_settles hinside hdigit).not_overflowed hlimit)
      ((whole.waitFor_settles hinside hdigit).not_overflowed hlimit')
  · rw [Line.waitForPattern_eq hsource]
    exact hsettles.outcome_eq hlimit hfive
  · rw [Line.waitForPattern_eq hsource]
    exact hsettles.not_overflowed hlimit
  · rw [Line.waitForPattern_eq hsource]
    exact (whole.waitFor_settles p.inside_report hp.report).not_overflowed hlimit'

/-- A stable test may report a place beyond the octets, where the frame ends with what happens to be
held: of `ab` a single octet, or nothing.  The same holds of the place 5 in any octets, behind the
first octet of `abc`. -/
theorem waits_disagree :
    Boundary.Stable Boundary.overLone ∧
    (∃ cut whole : Reception [0x61, 0x62],
      cut.parts = [[0x61], [0x62]] ∧ whole.parts = [[0x61, 0x62]] ∧
      outcomeOf (Line.waitFor (.ofHeld Boundary.overLone) cut.session.line)
        = .ok ([0x61], ()) ∧
      outcomeOf (Line.waitFor (.ofHeld Boundary.overLone) whole.session.line)
        = .error (.frameIncomplete 2)) ∧
    Boundary.Stable (fun _ => some (5, ())) ∧
    ∃ cut whole : Reception [0x61, 0x62, 0x63],
      cut.parts = [[0x61], [0x62, 0x63]] ∧ whole.parts = [[0x61, 0x62, 0x63]] ∧
      ∃ l l', Line.waitFor (.ofLength 1) cut.session.line = .ok ([0x61], ()) l ∧
        Line.waitFor (.ofLength 1) whole.session.line = .ok ([0x61], ()) l' ∧
        l.ahead = l'.ahead ∧
        outcomeOf (Line.waitFor (.ofHeld fun _ => some (5, ())) l) = .ok ([], ()) ∧
        outcomeOf (Line.waitFor (.ofHeld fun _ => some (5, ())) l') = .ok ([0x62, 0x63], ()) := by
  have hlone : Boundary.Stable Boundary.overLone := by
    intro b stop found hreport _ hend x
    obtain _ | ⟨c, _ | ⟨c', rest⟩⟩ := b <;> cases hreport
    simp at hend
  refine ⟨hlone, ⟨ofParts [[0x61], [0x62]] (by decide), ofParts [[0x61, 0x62]] (by decide), rfl, rfl,
    ?_, ?_⟩, fun _ _ _ hreport _ _ _ => hreport,
    ofParts [[0x61], [0x62, 0x63]] (by decide), ofParts [[0x61, 0x62, 0x63]] (by decide), rfl, rfl, ?_⟩
  · rw [Line.waitFor, Line.waitFrom_read rfl (by decide) rfl, Line.waitFrom_found rfl]
    rfl
  · rw [Line.waitFor, Line.waitFrom_read rfl (by decide) rfl, Line.waitFrom_ended rfl (by decide) rfl]
    rfl
  · rw [Line.waitFor, Line.waitFrom_read rfl (by decide) rfl, Line.waitFrom_found rfl,
      Line.waitFor, Line.waitFrom_read rfl (by decide) rfl, Line.waitFrom_found rfl]
    refine ⟨_, _, rfl, rfl, rfl, ?_, ?_⟩
    · rw [Line.waitFor, Line.waitFrom_found rfl]
      rfl
    · rw [Line.waitFor, Line.waitFrom_found rfl]
      rfl

end Reception

end NetconfWire
