/-
Values that choose a version.

A version is chosen by itself, or by a value whose text is its number, a letter `v` in front
of it or not.  Such a value is text, or one of two floating-point numbers:

* `Version.ofLabel?_eq_some_iff` — the texts that are read as a version;
* `Frame.version_eq_ok_iff` — the values that denote one;
* `Session.setVersion_chooses_iff` — what choosing a version comes to, and for which values
  that is what their kind promises.
-/
import NetconfWire.Proofs.Decimals
import NetconfWire.Proofs.Numerals
import NetconfWire.Proofs.Standing

namespace NetconfWire

/-! ### Texts that are read as a version -/

namespace Version

variable {text : String} {v : Version}

/-- A version is found by its number. -/
theorem find?_label (number : String) :
    all.find? (fun v => v.label == number) = some v ↔ v.label = number := by
  constructor
  · intro h
    have hsame := List.find?_some h
    exact eq_of_beq hsame
  · rintro rfl
    cases v <;> rfl

/-- A text is read as the version whose number it is, once a letter in front of it is dropped. -/
theorem ofLabel?_eq_some_iff :
    ofLabel? text = some v ↔ text = v.label ∨ text = "v" ++ v.label := by
  rw [ofLabel?, find?_label]
  split
  · next rest hrest =>
    have hlabel : text ≠ v.label := by
      rintro rfl
      cases v <;> cases hrest
    rw [or_iff_right hlabel, ← String.toList_inj, ← String.toList_inj, String.toList_append, hrest,
      String.toList_ofList]
    constructor
    · intro h
      rw [h]
      rfl
    · exact fun h => ((List.cons_inj_right 'v').mp h).symm
  · next hrest =>
    have hletter : text ≠ "v" ++ v.label := by
      rintro rfl
      exact hrest v.label.toList (String.toList_append ..)
    rw [or_iff_left hletter, eq_comm]

theorem dot_mem_of_ofLabel? (h : ofLabel? text = some v) : '.' ∈ text.toList := by
  obtain rfl | rfl := ofLabel?_eq_some_iff.mp h <;> cases v <;> decide

theorem head?_of_ofLabel? (h : ofLabel? text = some v) :
    text.toList.head? = some '1' ∨ text.toList.head? = some 'v' := by
  obtain rfl | rfl := ofLabel?_eq_some_iff.mp h
  · cases v <;> exact .inl rfl
  · cases v <;> exact .inr rfl

end Version

/-! ### Values that denote a version -/

namespace Datum

/-- The ways to name a version. -/
inductive Names : Datum → Version → Prop
  | version (v : Version) : Names (.version v) v
  | number (v : Version) : Names (.text v.label) v
  | lettered (v : Version) : Names (.text ("v" ++ v.label)) v

/-- A floating-point number whose text is a version number. -/
inductive Mimics : Datum → Version → Prop
  | real {x : Binary64} {v : Version} (h : x.toText = v.label) : Mimics (.real x) v

theorem display_integer (n : Int) : (integer n).display = String.ofList (Numeral.signed n) := rfl

theorem display_real (x : Binary64) : (real x).display = x.toText := rfl

theorem display_frozen (b : Octets) : (octets .frozen b).display = b.quoted := rfl

theorem display_growable (b : Octets) :
    (octets .growable b).display = "bytearray(" ++ b.quoted ++ ")" := rfl

theorem display_view (b : Octets) : (octets .view b).display = "<memory>" := rfl

theorem display_list (items : List Datum) :
    (list items).display = "[" ++ commaSeparated (quotedItems items) ++ "]" := rfl

theorem display_table (entries : List (String × Datum)) :
    (table entries).display = "\x7b" ++ commaSeparated (quotedEntries entries) ++ "\x7d" := rfl

/-- A value of another kind whose text is read as a version is text or a number. -/
theorem names_or_mimics_iff {given : Datum} {v : Version} (hversion : ∀ w, given ≠ .version w) :
    Version.ofLabel? given.display = some v ↔ given.Names v ∨ given.Mimics v := by
  constructor
  · intro h
    have hfirst := Version.head?_of_ofLabel? h
    cases given with
    | version w => exact absurd rfl (hversion w)
    | text s =>
      obtain rfl | rfl := Version.ofLabel?_eq_some_iff.mp h
      · exact .inl (.number v)
      · exact .inl (.lettered v)
    | real x =>
      rw [display_real] at h
      obtain hx | hx := Version.ofLabel?_eq_some_iff.mp h
      · exact .inr (.real hx)
      · have hv := x.letter_notMem_toText
        simp [hx] at hv
    | integer n =>
      have hdot := Version.dot_mem_of_ofLabel? h
      rw [display_integer, String.toList_ofList] at hdot
      rcases Numeral.minus_or_isDigit_of_mem_signed hdot with hminus | hdigit
      · exact absurd hminus (by decide)
      · exact absurd hdigit (by decide)
    | null => rcases hfirst with hfirst | hfirst <;> cases hfirst
    | truth b => cases b <;> rcases hfirst with hfirst | hfirst <;> cases hfirst
    | octets store b =>
      cases store with
      | frozen => simp [display_frozen, Octets.quoted] at hfirst
      | growable => simp [display_growable] at hfirst
      | view => simp [display_view] at hfirst
    | list items => simp [display_list] at hfirst
    | table entries => simp [display_table] at hfirst
  · rintro (h | h)
    · cases h with
      | version => exact absurd rfl (hversion v)
      | number => exact Version.ofLabel?_eq_some_iff.mpr (.inl rfl)
      | lettered => exact Version.ofLabel?_eq_some_iff.mpr (.inr rfl)
    · cases h with
      | real h => exact Version.ofLabel?_eq_some_iff.mpr (.inl h)

end Datum

namespace Frame

/-- A value of another kind denotes what its text is read as, if it has one. -/
theorem version_of_ne {given : Datum} (hversion : ∀ w, given ≠ .version w) :
    version given
      = if given.isWritable then
          match Version.ofLabel? given.display with
          | some v => .ok v
          | none => .error (.versionUnknown given)
        else .error (.numeral .tooLarge) := by
  unfold version
  split
  · next w => exact absurd rfl (hversion w)
  · rfl

/-- The values that denote a version are those that name it, and numbers that are written as it. -/
theorem version_eq_ok_iff {given : Datum} {v : Version} :
    version given = .ok v ↔ given.Names v ∨ given.Mimics v := by
  by_cases hversion : ∃ w, given = .version w
  · obtain ⟨w, rfl⟩ := hversion
    constructor
    · intro h
      cases h
      exact .inl (.version v)
    · rintro (h | h) <;> cases h
      rfl
  · have hversion : ∀ w, given ≠ .version w := fun w hw => hversion ⟨w, hw⟩
    rw [version_of_ne hversion, ← Datum.names_or_mimics_iff hversion]
    split
    · split
      · next w hw => simp [hw]
      · next hnone => simp [hnone]
    · next hlong =>
      refine iff_of_false nofun fun h => hlong ?_
      -- neither text nor a floating-point number is too long to be written
      obtain h | h := (Datum.names_or_mimics_iff hversion).mp h <;> cases h <;> rfl

/-- Whatever denotes no version is refused as a value. -/
theorem version_error {given : Datum} {f : Fault} (h : version given = .error f) :
    f.report.kind = .value := by
  unfold version at h
  split at h
  · cases h
  · split at h
    · split at h
      · cases h
      · cases h
        rfl
    · cases h
      rfl

end Frame

/-! ### Sessions -/

/-- The version in force is the last one that was chosen. -/
theorem Standing.version_foldl {log : List Milestone} (h : ∀ w, .chose w ∉ log) (t : Standing) :
    (log.foldl after t).version = t.version := by
  induction log generalizing t with
  | nil => rfl
  | cons m log ih =>
    have hrest : ∀ w, .chose w ∉ log := fun w hw => h w (List.mem_cons_of_mem m hw)
    rw [List.foldl_cons, ih hrest]
    cases m with
    | chose w => exact absurd List.mem_cons_self (h w)
    | closed => rfl
    | introduced hello => rfl
    | met hello => rfl

namespace Session

variable {κ : Type} [Link κ]

/-- Messages are sent and received in the frames of a version. -/
structure FramesFor (s : Session κ) (v : Version) : Prop where
  send : ∀ store payload, ∃ notes, Session.send (.octets store payload) s
    = match Link.send (Frame.encode v payload) s.line.link with
      | (.ok (), link) => .ok () (s.withLine { s.line.annotate notes with link })
      | (.error f, link) => .error f.fault (s.withLine { s.line.annotate notes with link })
  receive : ∃ notes, Session.receive s
    = match Line.waitFor (Boundary.ofDelimiter v.marker) s.line with
      | .error f l => .error f (s.withLine l)
      | .ok (frame, _) l =>
        match v.unwrap frame with
        | .error f => .error f (s.withLine l)
        | .ok message => .ok message (s.withLine (l.annotate notes))

/-- A version is chosen: messages are in its frames until another one is. -/
def Chooses (v : Version) (s : Session κ) (r : EStateM.Result Fault (Session κ) Unit) : Prop :=
  ∃ s', r = .ok () s' ∧ s'.version = v ∧ s'.phase = s.phase.afterChoice ∧
    s'.line.link = s.line.link ∧ s'.line.window = s.line.window ∧
    ∀ {log t}, Runs s' log t → (∀ w, .chose w ∉ log) → t.isClosed = false → t.FramesFor v

/-- A value is refused, and the session left as it was. -/
def Refuses (s : Session κ) (r : EStateM.Result Fault (Session κ) Unit) : Prop :=
  ∃ f, r = .error f s ∧ f.report.kind = .value

omit [Link κ] in
theorem setVersion_refuses {given : Datum} {f : Fault} (h : Frame.version given = .error f)
    (s : Session κ) : Refuses s (setVersion given s) := by
  have hchoice := setVersion_eq given s
  rw [h] at hchoice
  exact ⟨f, hchoice, Frame.version_error h⟩

theorem framesFor_of_open {s : Session κ} (h : s.isClosed = false) : s.FramesFor s.version :=
  ⟨fun store payload => send_eq store payload h, receive_eq h⟩

theorem setVersion_chooses {given : Datum} {v : Version} (h : Frame.version given = .ok v)
    (s : Session κ) : Chooses v s (setVersion given s) := by
  have hchoice := setVersion_eq given s
  rw [h] at hchoice
  refine ⟨_, hchoice, rfl, rfl, rfl, rfl, fun {log t} hrun hnone hopen => ?_⟩
  have hversion : t.version = v := by
    have hstanding := congrArg Standing.version hrun.standing_eq
    rw [Standing.version_foldl hnone] at hstanding
    exact hstanding
  rw [← hversion]
  exact framesFor_of_open hopen

omit [Link κ] in
theorem version_of_ok {given : Datum} {s s' : Session κ} (h : setVersion given s = .ok () s') :
    Frame.version given = .ok s'.version := by
  rw [setVersion_eq] at h
  split at h
  · cases h
  · next v hv =>
    cases h
    exact hv

/-- A value that is no version chooses one by its text alone. -/
theorem setVersion_chooses_text {given : Datum} (hversion : ∀ w, given ≠ .version w) (s : Session κ)
    (v : Version) : Chooses v s (setVersion given s)
      ↔ given.display = v.label ∨ given.display = "v" ++ v.label := by
  rw [← Version.ofLabel?_eq_some_iff, Datum.names_or_mimics_iff hversion, ← Frame.version_eq_ok_iff]
  constructor
  · rintro ⟨s', hchosen, rfl, -⟩
    exact version_of_ok hchosen
  · intro h
    exact setVersion_chooses h s

/-- **A version is chosen by its name, or by a number that looks like it.**  The values that name a
version choose it, for what is sent and received until another choice, and all others are refused
without a change, unless they are floating-point numbers that are written as a version: a value that
is no version is judged by its text alone.  There is one such number for each version. -/
theorem setVersion_chooses_iff (given : Datum) (s : Session κ) :
    (((∀ v, given.Names v → Chooses v s (setVersion given s)) ∧
        ((∀ v, ¬ given.Names v) → Refuses s (setVersion given s)))
      ↔ ∀ v, ¬ given.Mimics v) ∧
    ((∀ w, given ≠ .version w) → ∀ v, Chooses v s (setVersion given s)
      ↔ given.display = v.label ∨ given.display = "v" ++ v.label) ∧
    ∀ x : Binary64, x.IsCanonical → ∀ v,
      Chooses v s (setVersion (.real x) s) ↔ x = v.number := by
  refine ⟨⟨?_, ?_⟩, fun hversion => setVersion_chooses_text hversion s, ?_⟩
  · rintro ⟨-, hrefuses⟩ v hmimics
    -- a number that is written as a version does not name one, but is not refused
    obtain ⟨f, hrefused, -⟩ := hrefuses fun w hnames => by cases hmimics; cases hnames
    obtain ⟨s', hchosen, -⟩ := setVersion_chooses (Frame.version_eq_ok_iff.mpr (.inr hmimics)) s
    rw [hchosen] at hrefused
    cases hrefused
  · intro hmimics
    refine ⟨fun v hnames => setVersion_chooses (Frame.version_eq_ok_iff.mpr (.inl hnames)) s,
      fun hnames => ?_⟩
    cases hversion : Frame.version given with
    | ok v =>
      obtain h | h := Frame.version_eq_ok_iff.mp hversion
      · exact absurd h (hnames v)
      · exact absurd h (hmimics v)
    | error f => exact setVersion_refuses hversion s
  · intro x hx v
    rw [setVersion_chooses_text (fun w => by simp) s v, Datum.display_real,
      ← Binary64.toText_eq_label_iff hx]
    refine or_iff_left fun hletter => ?_
    have hv := x.letter_notMem_toText
    simp [hletter] at hv

/-- A fresh session that has nothing to read. -/
def idle : Session Script :=
  ⟨Line.fresh (Script.fresh [] false [] none)
    ⟨[], Window.defaultSize / 2, Window.defaultLimit⟩, [], .base10, .uninitialized, none, none⟩

/-- One letter is dropped, but not two, and the number 1.1 is taken for its text. -/
theorem setVersion_chooses_iff_letters :
    Chooses .base11 idle (setVersion (.text "v1.1") idle) ∧
    Refuses idle (setVersion (.text "vv1.1") idle) ∧
    (Version.number .base11).IsCanonical ∧
    Chooses .base11 idle (setVersion (.real (Version.number .base11)) idle) := by
  -- the number is in its normal form, like any number that is read
  have hread : Binary64.ofText? "1.1" = some (Version.number .base11) := by decide
  have hcanonical := Binary64.isCanonical_of_ofText? hread
  have hnoReal : ∀ (s : String) v, ¬ (Datum.text s).Mimics v := fun s v h => by cases h
  have hunnamed : ∀ v, ¬ (Datum.text "vv1.1").Names v := by
    intro v h
    have hversion := Frame.version_eq_ok_iff.mpr (.inl h)
    rw [show Frame.version (.text "vv1.1") = .error (.versionUnknown (.text "vv1.1")) from rfl]
      at hversion
    cases hversion
  obtain ⟨⟨-, hone⟩, -, hnumber⟩ := setVersion_chooses_iff (.text "v1.1") idle
  obtain ⟨⟨-, htwo⟩, -, -⟩ := setVersion_chooses_iff (.text "vv1.1") idle
  exact ⟨(hone (hnoReal _)).1 .base11 (.lettered .base11), (htwo (hnoReal _)).2 hunnamed, hcanonical,
    (hnumber _ hcanonical .base11).mpr rfl⟩

/-- The floating-point number 1.1 names no version, but is not refused. -/
theorem setVersion_ofNumber :
    Binary64.ofText? "1.1" = some (Version.number .base11) ∧
    (∀ v, ¬ (Datum.real (Version.number .base11)).Names v) ∧
    ∃ s, setVersion (.real (Version.number .base11)) idle = .ok () s ∧
      s.version = .base11 ∧ s.phase = .negotiated := by
  have htext : (Version.number .base11).toText = Version.label .base11 := by decide
  have hversion := Frame.version_eq_ok_iff.mpr (.inr (.real htext))
  have hchoice := setVersion_eq (.real (Version.number .base11)) idle
  rw [hversion] at hchoice
  refine ⟨by decide, fun v h => ?_, _, hchoice, rfl, rfl⟩
  cases h

end Session

end NetconfWire
