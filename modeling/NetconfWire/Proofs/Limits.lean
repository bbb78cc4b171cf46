/-
How much a window holds.

The limit of a window is looked at when a look has found no boundary and before the next
read.  So a wait holds more octets than the limit allows for the length of one read, and
whether a frame that ends in between is found depends on how the stream is cut into reads:

* `Line.waits_within` — no run of waits ever holds more than the limit and one read;
* `Line.waitFrom_beyond` — a frame that ends beyond that is refused, whatever the reads give;
* `Line.waitFrom_creep` — reads of single octets lead to any number of octets held, from
  which the frame is still found or already refused;
* `Line.tooLarge_again` — a refusal lasts, since there is nothing new to be searched;
* `Line.waits_limited` — the limit of a window, exactly.
-/
import NetconfWire.Proofs.Interruptions
import NetconfWire.Proofs.Splitting

namespace NetconfWire

/-! ### Links that give no more than is asked for -/

/-- Reads of a link give no more octets than they ask for, in all of these states and in those to
which reads lead. -/
structure Link.Rationed {κ : Type} [Link κ] (P : κ → Prop) : Prop where
  length_le : ∀ {size : Int} {k k' : κ} {b : Octets}, P k → Link.receive size k = (.ok b, k') →
    b.length ≤ size.toNat
  keeps : ∀ (size : Int) (k : κ), P k → P (Link.receive size k).2

theorem Script.rationed_metered : Link.Rationed fun k : Script => k.metered = true where
  length_le := by
    intro size k k' b hk h
    change receive size k = _ at h
    rw [receive] at h
    split_ifs at h with hclosed
    · cases h
    · revert h
      cases k.reads with
      | nil => intro h; cases h; exact Nat.zero_le _
      | cons r later =>
        cases r with
        | nothing => intro h; cases h; exact Nat.zero_le _
        | fails f => intro h; cases h
        | gives c =>
          intro h
          simp only [hk, Bool.true_and, decide_eq_true_eq] at h
          split_ifs at h with hcut
          · cases h; exact List.length_take_le _ _
          · cases h; exact Nat.not_lt.mp hcut
  keeps := by
    intro size k hk
    show (receive size k).2.metered = true
    rw [receive]
    split_ifs with hclosed
    · exact hk
    · cases k.reads with
      | nil => exact hk
      | cons r later =>
        cases r with
        | gives c =>
          dsimp only
          split_ifs <;> exact hk
        | _ => exact hk

/-- The link gives the stream, and no read gives more than it asks for. -/
structure Supplies {κ : Type} [Link κ] [Flow κ] (stream : Octets) (link : κ) : Prop where
  runs : Flow.Runs link
  ahead : Flow.ahead link = stream
  rationed : ∃ P : κ → Prop, Link.Rationed P ∧ P link

/-- A link that gives the stream in the given parts, or in smaller ones where less is asked for. -/
def Script.supply (parts : List Octets) : Script :=
  fresh (parts.map .gives) true [] none

theorem Script.supplies {parts : List Octets} (h : [] ∉ parts) :
    Supplies parts.flatten (supply parts) where
  runs := givesOnly_fresh h _ _ _
  ahead := unread_fresh _ _ _ _
  rationed := ⟨_, rationed_metered, rfl⟩

namespace Line

/-! ### What is held at most -/

/-- No more octets are held than the limit and one read allow, and neither were they at any look of
the last wait. -/
structure Within {κ : Type} (l : Line κ) : Prop where
  held : l.window.held.length ≤ l.window.limit + l.window.quantum
  looks : ∀ look ∈ l.looks, look.held ≤ l.window.limit + l.window.quantum

/-- The line after waits for the given delimiters, one after another. -/
def waits {κ : Type} [Link κ] (delimiters : List Octets) (l : Line κ) : Line κ :=
  delimiters.foldl (fun l delimiter => leftBy (waitForOctets delimiter l)) l

section Within

variable {κ α : Type} {l : Line κ}

theorem Within.look (h : l.Within) (searched : Nat) : (l.look searched).Within :=
  ⟨h.held, List.forall_mem_cons.mpr ⟨h.held, h.looks⟩⟩

theorem within_fresh (link : κ) {window : Window} (h : window.held = []) :
    (fresh link window).Within := by
  refine ⟨?_, fun look hlook => by cases hlook⟩
  show window.held.length ≤ _
  rw [h]
  exact Nat.zero_le _

variable [Link κ] {P : κ → Prop}

theorem waitFrom_within (hP : Link.Rationed P) (boundary : Boundary α) (searched : Nat)
    (hlink : P l.link) (h : l.Within) : (leftBy (waitFrom boundary searched l)).Within := by
  fun_induction waitFrom boundary searched l with
  | case1 => exact h.look _
  | case2 searched l stop found hfound frame window hcut =>
    cases hcut
    refine ⟨Nat.le_trans ?_ h.held, (h.look searched).looks⟩
    show (l.window.held.drop _).length ≤ _
    rw [List.length_drop]
    exact Nat.sub_le _ _
  | case3 => exact h.look _
  | case4 => exact ⟨h.held, (h.look _).looks⟩
  | case5 => exact ⟨h.held, (h.look _).looks⟩
  | case6 searched l hnone n hlimit x rest link hread ih =>
    -- a read is made only within the limit, and gives no more than it asks for
    have hlength := hP.length_le hlink hread
    have hkeeps := hP.keeps l.window.quantum l.link hlink
    rw [hread] at hkeeps
    refine ih hkeeps ⟨?_, (h.look searched).looks⟩
    show (l.window.held ++ x :: rest).length ≤ l.window.limit + l.window.quantum
    rw [List.length_append]
    omega

theorem waitForOctets_within (hP : Link.Rationed P) (delimiter : Octets) (hlink : P l.link)
    (h : l.Within) :
    (leftBy (waitForOctets delimiter l)).Within ∧ P (leftBy (waitForOctets delimiter l)).link := by
  by_cases hd : delimiter = []
  · rw [hd]
    exact ⟨h, hlink⟩
  · rw [(waitForOctets_outcome hd l).2]
    exact ⟨waitFrom_within hP _ _ hlink ⟨h.held, fun look hlook => by cases hlook⟩,
      waitFrom_link hP.keeps _ _ _ hlink⟩

/-- No run of waits ever holds more than the limit and one read. -/
theorem waits_within (hP : Link.Rationed P) (delimiters : List Octets) (hlink : P l.link)
    (h : l.Within) : (waits delimiters l).Within := by
  induction delimiters generalizing l with
  | nil => exact h
  | cons delimiter delimiters ih =>
    obtain ⟨hwithin, hlink'⟩ := waitForOctets_within hP delimiter hlink h
    exact ih hlink' hwithin

theorem waits_settings (delimiters : List Octets) (l : Line κ) :
    (waits delimiters l).window.limit = l.window.limit ∧
      (waits delimiters l).window.quantum = l.window.quantum := by
  induction delimiters generalizing l with
  | nil => exact ⟨rfl, rfl⟩
  | cons delimiter delimiters ih =>
    have hstep : (leftBy (waitForOctets delimiter l)).window.limit = l.window.limit ∧
        (leftBy (waitForOctets delimiter l)).window.quantum = l.window.quantum := by
      by_cases hd : delimiter = []
      · rw [hd]
        exact ⟨rfl, rfl⟩
      · rw [(waitForOctets_outcome hd l).2]
        exact waitFrom_settings _ _ _
    obtain ⟨hlimit, hquantum⟩ := ih (leftBy (waitForOctets delimiter l))
    exact ⟨hlimit.trans hstep.1, hquantum.trans hstep.2⟩

end Within

/-! ### Frames that end too late -/

section Flowing

variable {κ : Type} [Link κ] [Flow κ] {P : κ → Prop} {delimiter : Octets} {l : Line κ}
  {searched k : Nat}

/-- A frame that ends beyond the limit and one read is refused, whatever the reads give. -/
theorem waitFrom_beyond (hP : Link.Rationed P) (hlink : P l.link) (hd : delimiter ≠ [])
    (hruns : Flow.Runs l.link) (hquantum : 0 < l.window.quantum)
    (hle : searched ≤ l.window.held.length) (hs : ¬ delimiter <:+: l.window.held.take searched)
    (hk : Octets.find? delimiter l.ahead = some k)
    (hheld : l.window.held.length ≤ l.window.limit + l.window.quantum)
    (hlate : l.window.limit + l.window.quantum < k + delimiter.length) :
    ∃ n, l.window.limit < n ∧ outcomeOf (waitFrom (Boundary.ofDelimiter delimiter) searched l)
      = .error (.frameTooLarge n l.window.limit) := by
  -- the induction is on what the link has yet to give
  induction hn : (Flow.ahead l.link).length using Nat.strongRecOn generalizing l searched with
  | _ n ih =>
    have hmissing : Octets.find? delimiter l.window.held = none := by
      by_contra hfound
      obtain ⟨j, hj⟩ := Option.ne_none_iff_exists'.mp hfound
      have hsame := Octets.find?_append (x := Flow.ahead l.link) hd hj
      rw [← ahead, hk, Option.some.injEq] at hsame
      have hend := Octets.find?_le_length hd hj
      omega
    have hlook := Octets.ofDelimiter_eq_none hd hle hmissing
    by_cases hfull : l.window.limit < l.window.held.length
    · rw [waitFrom_tooLarge hlook hfull]
      exact ⟨_, hfull, rfl⟩
    have hend := Octets.find?_le_length hd hk
    rw [ahead, List.length_append] at hend
    obtain ⟨b, link, hread, hruns', hahead, hnil⟩ :=
      Flow.receive_eq (Int.natCast_pos.mpr hquantum) hruns
    have hlength := hP.length_le hlink hread
    rcases b with _ | ⟨x, rest⟩
    · -- the stream cannot end before the occurrence does
      rw [hnil rfl, List.length_nil] at hend
      omega
    · have hkeeps := hP.keeps l.window.quantum l.link hlink
      rw [hread] at hkeeps
      obtain ⟨hle', hs'⟩ := held_take hmissing link searched (x :: rest)
      have hheld' : ((l.look searched).take link (x :: rest)).window.held.length
          ≤ l.window.limit + l.window.quantum := by
        show (l.window.held ++ x :: rest).length ≤ _
        rw [List.length_append]
        omega
      rw [waitFrom_read hlook (Nat.not_lt.mp hfull) hread]
      rw [← ahead_take hahead searched] at hk
      have hshorter : (Flow.ahead link).length < n := hn ▸ ahead_shorter hahead
      exact @ih _ hshorter ((l.look searched).take link (x :: rest)) _ hkeeps hruns' hquantum
        hle' hs' hk hheld' hlate rfl

theorem waitForOctets_beyond (hP : Link.Rationed P) (hlink : P l.link) (hd : delimiter ≠ [])
    (hruns : Flow.Runs l.link) (hquantum : 0 < l.window.quantum)
    (hk : Octets.find? delimiter l.ahead = some k)
    (hheld : l.window.held.length ≤ l.window.limit + l.window.quantum)
    (hlate : l.window.limit + l.window.quantum < k + delimiter.length) :
    ∃ n, l.window.limit < n ∧ outcomeOf (waitForOctets delimiter l)
      = .error (.frameTooLarge n l.window.limit) := by
  obtain ⟨n, hn, hwait⟩ := @waitFrom_beyond κ _ _ P delimiter { l with looks := [] } 0 k hP hlink hd
    hruns hquantum (Nat.zero_le _) (by rw [List.take_zero, List.infix_nil]; exact hd) hk hheld hlate
  refine ⟨n, hn, ?_⟩
  rw [(waitForOctets_outcome hd l).1, waitFor, hwait]
  rfl

end Flowing

/-! ### Reads of single octets -/

section Creeping

variable {delimiter : Octets} {searched : Nat}

/-- Reads of single octets lead from a wait to a wait that holds them, as long as the window is
within its limit before each of them. -/
theorem waitFrom_creep {l : Line Script} {xs : Octets} {later : List ScriptedRead}
    (hd : delimiter ≠ []) (hopen : l.link.isClosed = false)
    (hreads : l.link.reads = xs.map (fun x => .gives [x]) ++ later)
    (hquantum : 0 < l.window.quantum) (hle : searched ≤ l.window.held.length)
    (hs : ¬ delimiter <:+: l.window.held ++ xs)
    (hlimit : l.window.held.length + xs.length ≤ l.window.limit + 1) :
    ∃ searched' l', waitFrom (Boundary.ofDelimiter delimiter) searched l
        = waitFrom (Boundary.ofDelimiter delimiter) searched' l' ∧
      searched' ≤ l'.window.held.length ∧
      l'.window = { l.window with held := l.window.held ++ xs } ∧
      l'.link.isClosed = false ∧ l'.link.reads = later := by
  induction xs generalizing l searched with
  | nil =>
    refine ⟨searched, l, rfl, hle, ?_, hopen, hreads⟩
    rw [List.append_nil]
  | cons x xs ih =>
    have hheld : ¬ delimiter <:+: l.window.held := fun h =>
      hs (h.trans (List.prefix_append _ _).isInfix)
    have hmissing := Octets.find?_eq_none_iff_not_infix.mpr hheld
    have hlook := Octets.ofDelimiter_eq_none hd hle hmissing
    rw [List.length_cons] at hlimit
    obtain ⟨link, hread, hopen', hreads'⟩ : ∃ link : Script,
        Link.receive l.window.quantum l.link = (.ok [x], link) ∧ link.isClosed = false ∧
          link.reads = xs.map (fun x => .gives [x]) ++ later := by
      have hread := Script.receive_gives l.window.quantum hopen hreads
      rw [if_neg (by rw [List.length_singleton]; omega)] at hread
      exact ⟨_, hread, hopen, rfl⟩
    have happend : (l.window.held ++ [x]) ++ xs = l.window.held ++ x :: xs :=
      List.append_assoc _ _ _
    -- the octet moves from what is to come into the window
    have hroom : (l.window.held ++ [x]).length + xs.length ≤ l.window.limit + 1 := by
      rw [List.length_append, List.length_singleton]
      omega
    rw [← happend] at hs
    obtain ⟨searched', l', hwait, hle', hwindow, hrest⟩ :=
      @ih l.window.held.length ((l.look searched).take link [x]) hopen' hreads' hquantum
        (held_take hmissing link searched [x]).1 hs hroom
    refine ⟨searched', l', ?_, hle', ?_, hrest⟩
    · rw [waitFrom_read hlook (by omega) hread]
      exact hwait
    · rw [hwindow, ← happend]
      rfl

/-- A stream whose first octets come one by one, and the others in one part. -/
def creeping (n : Nat) (stream : Octets) : List Octets :=
  (stream.take n).map (fun x => [x]) ++ [stream.drop n]

variable {stream : Octets} {n k : Nat} {window : Window}

theorem flatten_creeping (n : Nat) (stream : Octets) : (creeping n stream).flatten = stream := by
  rw [creeping, List.flatten_append, List.flatten_singleton, ← List.flatMap_def,
    List.flatMap_singleton', List.take_append_drop]

theorem nil_notMem_creeping (hn : n < stream.length) : [] ∉ creeping n stream := by
  intro h
  rcases List.mem_append.mp h with h | h
  · obtain ⟨x, -, hx⟩ := List.mem_map.mp h
    cases hx
  · have hlength := congrArg List.length (List.mem_singleton.mp h)
    rw [List.length_nil, List.length_drop] at hlength
    omega

/-- A wait on a fresh line comes to hold the octets that come one by one. -/
theorem waitForOctets_creeping (hd : delimiter ≠ []) (hk : Octets.find? delimiter stream = some k)
    (hwindow : window.held = []) (hquantum : 0 < window.quantum) (hn : n < k + delimiter.length)
    (hlimit : n ≤ window.limit + 1) :
    ∃ (searched : Nat) (l : Line Script), outcomeOf (waitForOctets delimiter (fresh (Script.supply (creeping n stream)) window))
        = (outcomeOf (waitFrom (Boundary.ofDelimiter delimiter) searched l)).map
          (fun found => found.1.take (found.1.length - delimiter.length)) ∧
      searched ≤ l.window.held.length ∧ l.window = { window with held := stream.take n } ∧
      l.link.isClosed = false ∧ l.link.reads = [.gives (stream.drop n)] ∧
      Octets.find? delimiter (stream.take n) = none := by
  have hmissing : Octets.find? delimiter (stream.take n) = none := by
    by_contra hfound
    obtain ⟨j, hj⟩ := Option.ne_none_iff_exists'.mp hfound
    have hsame := Octets.find?_append (x := stream.drop n) hd hj
    rw [List.take_append_drop, hk, Option.some.injEq] at hsame
    have hend := Octets.find?_le_length hd hj
    rw [List.length_take] at hend
    omega
  have hreads : (creeping n stream).map ScriptedRead.gives
      = (stream.take n).map (fun x => .gives [x]) ++ [.gives (stream.drop n)] := by
    rw [creeping, List.map_append, List.map_map]
    rfl
  have hlength : (stream.take n).length ≤ n := List.length_take_le _ _
  obtain ⟨searched, l, hwait, hle, hheld, hopen, hlater⟩ :=
    @waitFrom_creep delimiter 0 (fresh (Script.supply (creeping n stream)) window) _ _ hd rfl hreads
      hquantum (Nat.zero_le _)
      (by rw [fresh, hwindow]; exact Octets.find?_eq_none_iff_not_infix.mp hmissing)
      (by
        show window.held.length + _ ≤ window.limit + 1
        rw [hwindow, List.length_nil]
        omega)
  refine ⟨searched, l, ?_, hle, ?_, hopen, hlater, hmissing⟩
  · rw [(waitForOctets_outcome hd _).1, waitFor, ← hwait]
    rfl
  · rw [hheld, fresh, hwindow]
    rfl

/-- The part of the stream in front of the delimiter is what is left of the frame. -/
theorem take_frame (hk : Octets.find? delimiter stream = some k) :
    (stream.take (k + delimiter.length)).take
        ((stream.take (k + delimiter.length)).length - delimiter.length) = stream.take k := by
  rw [(Octets.find?_eq_some_iff.mp hk).1.take_add, List.length_append, Nat.add_sub_cancel,
    List.take_left]

/-- A frame that ends within one read behind the limit is found when that read gives it. -/
theorem exists_found (hd : delimiter ≠ []) (hk : Octets.find? delimiter stream = some k)
    (hwindow : window.held = []) (hquantum : 0 < window.quantum)
    (hlate : window.limit < k + delimiter.length)
    (hend : k + delimiter.length ≤ window.limit + window.quantum) :
    ∃ parts, [] ∉ parts ∧ parts.flatten = stream ∧
      outcomeOf (waitForOctets delimiter (fresh (Script.supply parts) window))
        = .ok (stream.take k) := by
  have hle := Octets.find?_le_length hd hk
  obtain ⟨searched, l, hwait, hsearched, hsame, hopen, hreads, hmissing⟩ :=
    waitForOctets_creeping hd hk hwindow hquantum hlate (Nat.le_succ _)
  refine ⟨creeping window.limit stream, nil_notMem_creeping (by omega), flatten_creeping _ _, ?_⟩
  have hheld : l.window.held = stream.take window.limit := by rw [hsame]
  have hfull : l.window.held.length = l.window.limit := by
    rw [hsame, List.length_take]
    exact Nat.min_eq_left (by omega)
  -- the last read gives the rest of the stream, or so much of it that the frame is complete
  obtain ⟨m, link, hm, hread⟩ : ∃ m link, k + delimiter.length ≤ window.limit + m ∧
      Link.receive l.window.quantum l.link = (.ok ((stream.drop window.limit).take m), link) := by
    rw [hsame, Script.receive_gives window.quantum hopen hreads]
    split_ifs with hcut
    · exact ⟨_, _, hend, rfl⟩
    · refine ⟨(stream.drop window.limit).length, _, ?_, by rw [List.take_length]⟩
      rw [List.length_drop]
      omega
  obtain ⟨x, rest, hpart⟩ : ∃ x rest, (stream.drop window.limit).take m = x :: rest := by
    refine List.exists_cons_of_length_pos ?_
    rw [List.length_take, List.length_drop]
    omega
  rw [← hheld] at hmissing
  have hlook := Octets.ofDelimiter_eq_none hd hsearched hmissing
  obtain ⟨hle', hs'⟩ := held_take hmissing link searched (x :: rest)
  have hnow : ((l.look searched).take link (x :: rest)).window.held
      = stream.take (window.limit + m) := by
    show l.window.held ++ x :: rest = _
    rw [hheld, ← hpart, ← List.take_add]
  have hfound : Octets.find? delimiter
      ((l.look searched).take link (x :: rest)).window.held = some k := by
    rw [hnow]
    refine Octets.find?_of_append (x := stream.drop (window.limit + m)) ?_ ?_
    · rw [List.take_append_drop, hk]
    · rw [List.length_take]
      omega
  rw [hpart] at hread
  rw [hwait, waitFrom_read hlook (Nat.le_of_eq hfull) hread, waitFrom_held hd hle' hs' hfound, hnow,
    List.take_take, Nat.min_eq_left hm]
  exact congrArg Except.ok (take_frame hk)

/-- A frame that ends behind the limit is refused when a read stops in front of its end. -/
theorem exists_refused (hd : delimiter ≠ []) (hk : Octets.find? delimiter stream = some k)
    (hwindow : window.held = []) (hquantum : 0 < window.quantum)
    (hlate : window.limit + 1 < k + delimiter.length) :
    ∃ parts, [] ∉ parts ∧ parts.flatten = stream ∧
      outcomeOf (waitForOctets delimiter (fresh (Script.supply parts) window))
        = .error (.frameTooLarge (window.limit + 1) window.limit) := by
  have hle := Octets.find?_le_length hd hk
  obtain ⟨searched, l, hwait, hsearched, hsame, -, -, hmissing⟩ :=
    waitForOctets_creeping hd hk hwindow hquantum hlate (Nat.le_refl _)
  refine ⟨creeping (window.limit + 1) stream, nil_notMem_creeping (by omega),
    flatten_creeping _ _, ?_⟩
  have hheld : l.window.held = stream.take (window.limit + 1) := by rw [hsame]
  have hlimit : l.window.limit = window.limit := by rw [hsame]
  have hlength : l.window.held.length = window.limit + 1 := by
    rw [hheld, List.length_take]
    exact Nat.min_eq_left (by omega)
  rw [← hheld] at hmissing
  have hlook := Octets.ofDelimiter_eq_none hd hsearched hmissing
  rw [hwait, waitFrom_tooLarge hlook (by omega), hlength, hlimit]
  rfl

end Creeping

/-! ### Refusals last -/

section Refused

variable {κ : Type} [Link κ] {delimiter : Octets} {n m : Nat} {l l' : Line κ}

/-- A window that was refused as too large does not hold the delimiter. -/
theorem held_of_tooLarge {searched : Nat} (hd : delimiter ≠ [])
    (hle : searched ≤ l.window.held.length) (hs : ¬ delimiter <:+: l.window.held.take searched)
    (h : waitFrom (Boundary.ofDelimiter delimiter) searched l = .error (.frameTooLarge n m) l') :
    l'.window.held.length = n ∧ l'.window.limit = m ∧ m < n ∧
      Octets.find? delimiter l'.window.held = none := by
  have hmissing : ∀ {searched : Nat} {l : Line κ}, searched ≤ l.window.held.length →
      ¬ delimiter <:+: l.window.held.take searched →
      Boundary.ofDelimiter delimiter l.window.held searched = .ok none →
      Octets.find? delimiter l.window.held = none := by
    intro searched l hle hs hlook
    rw [Octets.ofDelimiter_eq hd hle hs] at hlook
    cases hfind : Octets.find? delimiter l.window.held with
    | none => rfl
    | some k => rw [hfind] at hlook; cases hlook
  -- only one way out of the loop leads to this fault, and it follows a look that found nothing
  fun_induction waitFrom (Boundary.ofDelimiter delimiter) searched l with
  | case1 => cases h; contradiction
  | case2 => cases h
  | case3 searched l hlook held hlimit =>
    injection h with hfault hline
    injection hfault with hn hm
    subst hline hn hm
    exact ⟨rfl, rfl, hlimit, hmissing hle hs hlook⟩
  | case4 => cases h
  | case5 => cases h
  | case6 searched l hlook n hlimit x rest link hread ih =>
    obtain ⟨hle', hs'⟩ := held_take (hmissing hle hs hlook) link searched (x :: rest)
    exact ih hle' hs' h

/-- A refusal lasts: the same wait is refused again, without a read. -/
theorem tooLarge_again (h : waitForOctets delimiter l = .error (.frameTooLarge n m) l') :
    ∃ l'', waitForOctets delimiter l' = .error (.frameTooLarge n m) l'' ∧ l''.link = l'.link ∧
      l''.window = l'.window := by
  by_cases hd : delimiter = []
  · rw [hd] at h
    cases h
  have hwait : waitFrom (Boundary.ofDelimiter delimiter) 0 { l with looks := [] }
      = .error (.frameTooLarge n m) l' := by
    rw [waitForOctets_eq hd, waitFor] at h
    cases hw : waitFrom (Boundary.ofDelimiter delimiter) 0 { l with looks := [] } with
    | error f l => rw [hw] at h; cases h; rfl
    | ok found l => rw [hw] at h; cases h
  obtain ⟨hlength, hlimit, hlt, hmissing⟩ := held_of_tooLarge hd (Nat.zero_le _)
    (by rw [List.take_zero, List.infix_nil]; exact hd) hwait
  -- the next wait looks at the same window from its beginning
  have hagain := @waitFrom_tooLarge κ Unit _ (Boundary.ofDelimiter delimiter) 0
    { l' with looks := [] } (Octets.ofDelimiter_eq_none hd (Nat.zero_le _) hmissing)
    (by rw [hlength, hlimit]; exact hlt)
  rw [hlength, hlimit] at hagain
  rw [waitForOctets_eq hd, waitFor, hagain]
  exact ⟨_, rfl, rfl, rfl⟩

theorem attempts_tooLarge (h : waitForOctets delimiter l = .error (.frameTooLarge n m) l')
    (count : Nat) :
    (attempts (waitForOctets delimiter) count l').1
        = List.replicate count (.error (.frameTooLarge n m)) ∧
      (attempts (waitForOctets delimiter) count l').2.link = l'.link ∧
      (attempts (waitForOctets delimiter) count l').2.window = l'.window := by
  induction count generalizing l l' with
  | zero => exact ⟨rfl, rfl, rfl⟩
  | succ count ih =>
    obtain ⟨l'', hagain, hlink, hwindow⟩ := tooLarge_again h
    obtain ⟨houtcomes, hlink', hwindow'⟩ := ih hagain
    rw [attempts, hagain]
    refine ⟨?_, hlink'.trans hlink, hwindow'.trans hwindow⟩
    show _ :: (attempts (waitForOctets delimiter) count l'').1 = _
    rw [houtcomes, List.replicate_succ]
    rfl

end Refused

/-! ### The limit of a window -/

/-- The line has the window, and its link gives the stream. -/
structure Faces {κ : Type} [Link κ] [Flow κ] (window : Window) (stream : Octets) (l : Line κ) :
    Prop where
  window_eq : l.window = window
  supplies : Supplies stream l.link

theorem Faces.ahead_eq {κ : Type} [Link κ] [Flow κ] {window : Window} {stream : Octets} {l : Line κ}
    (h : l.Faces window stream) (hheld : window.held = []) : l.ahead = stream := by
  rw [ahead, h.window_eq, hheld, h.supplies.ahead, List.nil_append]

theorem faces_fresh {parts : List Octets} {window : Window} {stream : Octets} (h : [] ∉ parts)
    (hstream : parts.flatten = stream) :
    (fresh (Script.supply parts) window).Faces window stream :=
  ⟨rfl, hstream ▸ Script.supplies h⟩

/-- **The limit of a window, exactly.**  Whatever is waited for, a window holds no more than its
limit and one read, at any look of any run of waits, over any link that gives no more than it is
asked for.  A frame that ends within the limit, or just behind it, is found however the stream is
cut into reads, and one that ends further behind it than a read reaches is refused; in between it is
found in some ways of cutting the stream, and refused in others.  A refusal lasts, without any more
reads.  Only a delimiter without octets is never waited for. -/
theorem waits_limited {size limit : Int} {window : Window}
    (hwindow : Window.make size limit = .ok window) :
    (∀ (κ : Type) [Link κ] (P : κ → Prop) (link : κ) (delimiters : List Octets),
      Link.Rationed P → P link →
      ((waits delimiters (fresh link window)).window.held.length : Int) ≤ limit + size / 2 ∧
      ∀ look ∈ (waits delimiters (fresh link window)).looks,
        (look.held : Int) ≤ limit + size / 2) ∧
    (∀ (delimiter stream : Octets) (k : Nat), delimiter ≠ [] →
      Octets.find? delimiter stream = some k →
      ((k + delimiter.length : Int) ≤ limit + 1 →
        ∀ (κ : Type) [Link κ] [Flow κ] (l : Line κ), l.Faces window stream →
          outcomeOf (waitForOctets delimiter l) = .ok (stream.take k)) ∧
      (limit + size / 2 < (k + delimiter.length : Int) →
        ∀ (κ : Type) [Link κ] [Flow κ] (l : Line κ), l.Faces window stream →
          ∃ n m : Nat, (m : Int) = limit ∧ m < n ∧
            outcomeOf (waitForOctets delimiter l) = .error (.frameTooLarge n m)) ∧
      (limit + 1 < (k + delimiter.length : Int) →
        (k + delimiter.length : Int) ≤ limit + size / 2 →
        (∃ l : Line Script, l.Faces window stream ∧
          outcomeOf (waitForOctets delimiter l) = .ok (stream.take k)) ∧
        ∃ l : Line Script, l.Faces window stream ∧ ∃ n m : Nat, (m : Int) = limit ∧ m < n ∧
          outcomeOf (waitForOctets delimiter l) = .error (.frameTooLarge n m))) ∧
    (∀ (κ : Type) [Link κ] (delimiter : Octets) (l l' : Line κ) (n m : Nat),
      waitForOctets delimiter l = .error (.frameTooLarge n m) l' → ∀ count,
        (attempts (waitForOctets delimiter) count l').1
            = List.replicate count (.error (.frameTooLarge n m)) ∧
          (attempts (waitForOctets delimiter) count l').2.link = l'.link) ∧
    ∀ (κ : Type) [Link κ] (l : Line κ), waitForOctets [] l = .error .delimiterEmpty l := by
  obtain ⟨hheld, hpos, hquantum, hlimit⟩ := Window.make_eq_ok hwindow
  refine ⟨?_, ?_, ?_, fun κ _ l => rfl⟩
  · intro κ _ P link delimiters hP hlink
    obtain ⟨hnow, hlooks⟩ := waits_within hP delimiters hlink (within_fresh link hheld)
    obtain ⟨hsame, hsame'⟩ := waits_settings delimiters (fresh link window)
    rw [hsame, hsame'] at hnow hlooks
    change _ ≤ window.limit + window.quantum at hnow
    change ∀ look : Look, _ → look.held ≤ window.limit + window.quantum at hlooks
    refine ⟨by omega, fun look hlook => ?_⟩
    have := hlooks look hlook
    omega
  · intro delimiter stream k hd hk
    refine ⟨fun hearly κ _ _ l hl => ?_, fun hlate κ _ _ l hl => ?_, fun hlate hend => ⟨?_, ?_⟩⟩
    · have hahead := hl.ahead_eq hheld
      obtain ⟨l', hwait, -⟩ := waitForOctets_hit hd hl.supplies.runs
        (by rw [hl.window_eq]; exact hpos) (by rw [hahead]; exact hk) (by rw [hl.window_eq]; omega)
      rw [hwait, hahead]
      rfl
    · obtain ⟨P, hP, hlink⟩ := hl.supplies.rationed
      obtain ⟨n, hn, hwait⟩ := waitForOctets_beyond hP hlink hd hl.supplies.runs
        (by rw [hl.window_eq]; exact hpos) (by rw [hl.ahead_eq hheld]; exact hk)
        (by rw [hl.window_eq, hheld]; exact Nat.zero_le _) (by rw [hl.window_eq]; omega)
      rw [hl.window_eq] at hn hwait
      exact ⟨n, window.limit, hlimit, hn, hwait⟩
    · obtain ⟨parts, hparts, hstream, hwait⟩ := exists_found hd hk hheld hpos (by omega) (by omega)
      exact ⟨_, faces_fresh hparts hstream, hwait⟩
    · obtain ⟨parts, hparts, hstream, hwait⟩ := exists_refused hd hk hheld hpos (by omega)
      exact ⟨_, faces_fresh hparts hstream, _, _, hlimit, Nat.lt_succ_self _, hwait⟩
  · intro κ _ delimiter l l' n m h count
    obtain ⟨houtcomes, hlink, -⟩ := attempts_tooLarge h count
    exact ⟨houtcomes, hlink⟩

/-- A window for four octets, with a limit of as many: the message of five octets and its delimiter
is found in some ways of cutting the stream, and refused in others. -/
theorem waits_limited_between :
    Window.make 4 4 = .ok ⟨[], 2, 4⟩ ∧
    (∃ l : Line Script, l.Faces ⟨[], 2, 4⟩ [0x61, 0x62, 0x63, 0x64, 0x65, 0x3B, 0x66] ∧
      outcomeOf (waitForOctets [0x3B] l) = .ok [0x61, 0x62, 0x63, 0x64, 0x65]) ∧
    ∃ l : Line Script, l.Faces ⟨[], 2, 4⟩ [0x61, 0x62, 0x63, 0x64, 0x65, 0x3B, 0x66] ∧
      ∃ n m : Nat, (m : Int) = 4 ∧ m < n ∧
        outcomeOf (waitForOctets [0x3B] l) = .error (.frameTooLarge n m) := by
  have hwindow : Window.make 4 4 = .ok ⟨[], 2, 4⟩ := rfl
  have hfirst : Octets.find? [0x3B] [0x61, 0x62, 0x63, 0x64, 0x65, 0x3B, 0x66] = some 5 := by decide
  exact ⟨hwindow, ((waits_limited hwindow).2.1 _ _ _ (by decide) hfirst).2.2 (by decide) (by decide)⟩

end Line

end NetconfWire
