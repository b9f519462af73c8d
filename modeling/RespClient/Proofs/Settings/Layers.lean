import Mathlib.Algebra.Group.Nat.Defs
import RespClient.Settings.Arguments

/-!
# Settings, layer by layer

What a command line means can be said without reading it in order. Its arguments fall into items,
a flag with the argument after it (`Arguments.items`). Either an item is faulty, and then the first
one that is decides alone; or every flag means the last value it is given, what no flag gives comes
from the file that the last `--config` names, and the rest from the defaults (`Settings.Layered`).

The program goes through the arguments once and keeps what it has read. It comes to the same, since
what it keeps is at every item the last value that each flag has been given so far
(`Arguments.scan_sound`), and a later item is reached only when those before it are sound.

- §1: flags and their items.
- §2: reading the arguments.
- §3: the settings.
-/

namespace RespClient

/-! ## §1  Flags and items -/

namespace Flag

theorem mem_all (flag : Flag) : flag ∈ all := by
  cases flag <;> decide

theorem ofName?_name (flag : Flag) : ofName? flag.name = some flag := by
  cases flag <;> decide

theorem name_inj {f g : Flag} : f.name = g.name ↔ f = g := by
  refine ⟨fun h => ?_, congrArg name⟩
  have hsome : some f = some g := by rw [← ofName?_name f, h, ofName?_name]
  exact Option.some.inj hsome

theorem name_of_ofName? {arg : String} {flag : Flag} (h : ofName? arg = some flag) :
    flag.name = arg := by
  simpa using List.find?_some h

theorem name_ne_of_ofName? {arg : String} (h : ofName? arg = none) (flag : Flag) :
    flag.name ≠ arg := by
  simpa using List.find?_eq_none.mp h flag (mem_all flag)

/-- The values that can stand after a flag: for some flags any, for others numerals. -/
def Fits (flag : Flag) (value : String) : Prop :=
  match flag with
  | .host | .logLevel | .config => True
  | .port => ∃ n, Numeral.uint32? value = some n
  | .retryInterval | .maxRetryDelay | .replyTimeout => ∃ n, Numeral.uint64? value = some n

end Flag

namespace Arguments

/-- An argument in the place of a flag, with the argument after it if there is one. -/
abbrev Item : Type := String × Option String

/-- The items of a command line: every second argument is a value, whatever it looks like. -/
def items : List String → List Item
  | [] => []
  | [arg] => [(arg, none)]
  | arg :: value :: rest => (arg, some value) :: items rest

/-- Why an item cannot be accepted. -/
inductive Faulty : Item → SettingsError → Prop
  | unknown {arg : String} {value : Option String} (name : ∀ flag : Flag, flag.name ≠ arg) :
      Faulty (arg, value) (.invalidFlag arg)
  | missing {arg : String} {flag : Flag} (name : flag.name = arg) :
      Faulty (arg, none) (.invalidFlagValue flag)
  | unfit {arg value : String} {flag : Flag} (name : flag.name = arg)
      (unfit : ¬ flag.Fits value) : Faulty (arg, some value) (.invalidFlagValue flag)

def Sound (item : Item) : Prop := ∀ e, ¬ Faulty item e

/-- The first item that cannot be accepted, and why. -/
inductive FirstFault : List Item → SettingsError → Prop
  | here {item : Item} {rest : List Item} {e : SettingsError} (faulty : Faulty item e) :
      FirstFault (item :: rest) e
  | later {item : Item} {rest : List Item} {e : SettingsError} (sound : Sound item)
      (fault : FirstFault rest e) : FirstFault (item :: rest) e

/-- The values that a flag is given, in order. -/
def values (flag : Flag) (items : List Item) : List String :=
  items.filterMap fun item => if item.1 = flag.name then item.2 else none

/-- The value that counts. -/
def last (flag : Flag) (items : List Item) : Option String := (values flag items).getLast?

def lastUint32 (flag : Flag) (items : List Item) : Option Nat :=
  (last flag items).bind Numeral.uint32?

def lastUint64 (flag : Flag) (items : List Item) : Option Nat :=
  (last flag items).bind Numeral.uint64?

/-! ## §2  Reading the arguments -/

variable {a : Arguments} {flag : Flag} {value : String} {rest : List Item}

theorem set_eq_none_iff : a.set flag value = none ↔ ¬ flag.Fits value := by
  cases flag <;> simp [set, Flag.Fits, Option.eq_none_iff_forall_ne_some]

theorem sound_pair_iff : Sound (flag.name, some value) ↔ flag.Fits value := by
  constructor
  · intro h
    exact Classical.byContradiction fun hunfit => h _ (.unfit rfl hunfit)
  · intro hfits e hfault
    cases hfault with
    | unknown hname => exact hname flag rfl
    | unfit hname hunfit =>
        obtain rfl := Flag.name_inj.mp hname
        exact hunfit hfits

/-- What is kept after reading these items on top of `a`. -/
def given (a : Arguments) (items : List Item) : Arguments where
  flags :=
    { host := (last .host items).or a.flags.host
      port := (lastUint32 .port items).or a.flags.port
      retryInterval := (lastUint64 .retryInterval items).or a.flags.retryInterval
      maxRetryDelay := (lastUint64 .maxRetryDelay items).or a.flags.maxRetryDelay
      replyTimeout := (lastUint64 .replyTimeout items).or a.flags.replyTimeout
      logLevel := (last .logLevel items).or a.flags.logLevel }
  file := (last .config items).or a.file

theorem last_cons (f : Flag) :
    last f ((flag.name, some value) :: rest) =
      (last f rest).or (if flag = f then some value else none) := by
  unfold last values
  by_cases hf : flag = f
  · rw [List.filterMap_cons_some (b := value) (by simp [hf]), List.getLast?_cons, if_pos hf]
    generalize (List.filterMap _ rest).getLast? = found
    cases found <;> rfl
  · rw [List.filterMap_cons_none (by simp [Flag.name_inj, hf]), if_neg hf, Option.or_none]

theorem fits_last {f : Flag} (h : ∀ item ∈ rest, Sound item) {value : String}
    (hlast : last f rest = some value) : f.Fits value := by
  have hmem : value ∈ values f rest := List.mem_of_getLast? hlast
  obtain ⟨⟨arg, given⟩, hitem, hgiven⟩ := List.mem_filterMap.mp hmem
  dsimp only at hgiven
  split at hgiven
  · next harg =>
      subst harg hgiven
      exact sound_pair_iff.mp (h _ hitem)
  · exact absurd hgiven (by simp)

/-- The last numeral is the numeral of the last value, where every value is one. -/
theorem bind_last_cons (flag : Flag) (value : String) (f : Flag) (read : String → Option Nat)
    (hread : ∀ value, last f rest = some value → ∃ n, read value = some n) :
    (last f ((flag.name, some value) :: rest)).bind read =
      ((last f rest).bind read).or (if flag = f then read value else none) := by
  rw [last_cons]
  cases hlast : last f rest with
  | none => split <;> rfl
  | some value =>
      obtain ⟨n, hn⟩ := hread value hlast
      rw [Option.some_or, Option.bind_some, hn, Option.some_or]

theorem given_set {a' : Arguments} (hset : a.set flag value = some a')
    (hrest : ∀ item ∈ rest, Sound item) :
    a'.given rest = a.given ((flag.name, some value) :: rest) := by
  have hport := bind_last_cons flag value .port Numeral.uint32? fun _ hlast =>
    fits_last hrest hlast
  have hretry := bind_last_cons flag value .retryInterval Numeral.uint64? fun _ hlast =>
    fits_last hrest hlast
  have hmax := bind_last_cons flag value .maxRetryDelay Numeral.uint64? fun _ hlast =>
    fits_last hrest hlast
  have hreply := bind_last_cons flag value .replyTimeout Numeral.uint64? fun _ hlast =>
    fits_last hrest hlast
  unfold given lastUint32 lastUint64
  rw [hport, hretry, hmax, hreply, last_cons, last_cons, last_cons]
  cases flag with
  | host =>
      obtain rfl := Option.some.inj hset
      simp
  | port =>
      obtain ⟨n, hn, rfl⟩ := Option.map_eq_some_iff.mp hset
      simp [hn]
  | retryInterval =>
      obtain ⟨n, hn, rfl⟩ := Option.map_eq_some_iff.mp hset
      simp [hn]
  | maxRetryDelay =>
      obtain ⟨n, hn, rfl⟩ := Option.map_eq_some_iff.mp hset
      simp [hn]
  | replyTimeout =>
      obtain ⟨n, hn, rfl⟩ := Option.map_eq_some_iff.mp hset
      simp [hn]
  | logLevel =>
      obtain rfl := Option.some.inj hset
      simp
  | config =>
      obtain rfl := Option.some.inj hset
      simp

/-- **Sound items are all read**, and of each flag the last value is kept. -/
theorem scan_sound {args : List String} (h : ∀ item ∈ items args, Sound item) :
    a.scan args = .ok (a.given (items args)) := by
  fun_induction scan a args with
  | case1 a => rfl
  | case2 a arg hflag =>
      exact absurd (.unknown (Flag.name_ne_of_ofName? hflag)) (h _ List.mem_cons_self _)
  | case3 a arg flag hflag =>
      exact absurd (.missing (Flag.name_of_ofName? hflag)) (h _ List.mem_cons_self _)
  | case4 a arg value rest hflag =>
      exact absurd (.unknown (Flag.name_ne_of_ofName? hflag)) (h _ List.mem_cons_self _)
  | case5 a arg value rest flag hflag hset =>
      exact absurd (.unfit (Flag.name_of_ofName? hflag) (set_eq_none_iff.mp hset))
        (h _ List.mem_cons_self _)
  | case6 a arg value rest flag hflag a' hset ih =>
      obtain rfl := Flag.name_of_ofName? hflag
      have hrest : ∀ item ∈ items rest, Sound item := fun item hitem =>
        h item (List.mem_cons_of_mem _ hitem)
      rw [ih hrest, items, given_set hset hrest]

theorem Faulty.unique {item : Item} {e e' : SettingsError} (h : Faulty item e)
    (h' : Faulty item e') : e = e' := by
  cases h with
  | unknown hname =>
      cases h' with
      | unknown => rfl
      | missing hname' => exact absurd hname' (hname _)
      | unfit hname' => exact absurd hname' (hname _)
  | missing hname =>
      cases h' with
      | unknown hname' => exact absurd hname (hname' _)
      | missing hname' => rw [Flag.name_inj.mp (hname.trans hname'.symm)]
  | unfit hname =>
      cases h' with
      | unknown hname' => exact absurd hname (hname' _)
      | unfit hname' => rw [Flag.name_inj.mp (hname.trans hname'.symm)]

theorem FirstFault.eq_of_faulty {item : Item} {e e' : SettingsError}
    (h : FirstFault (item :: rest) e) (h' : Faulty item e') : e = e' := by
  cases h with
  | here faulty => exact faulty.unique h'
  | later sound => exact absurd h' (sound e')

/-- **The first fault is reported**, whatever comes after it. -/
theorem scan_fault {args : List String} {e : SettingsError} (h : FirstFault (items args) e) :
    a.scan args = .error e := by
  fun_induction scan a args with
  | case1 a => cases h
  | case2 a arg hflag => rw [h.eq_of_faulty (.unknown (Flag.name_ne_of_ofName? hflag))]
  | case3 a arg flag hflag => rw [h.eq_of_faulty (.missing (Flag.name_of_ofName? hflag))]
  | case4 a arg value rest hflag =>
      rw [h.eq_of_faulty (.unknown (Flag.name_ne_of_ofName? hflag))]
  | case5 a arg value rest flag hflag hset =>
      rw [h.eq_of_faulty (.unfit (Flag.name_of_ofName? hflag) (set_eq_none_iff.mp hset))]
  | case6 a arg value rest flag hflag a' hset ih =>
      obtain rfl := Flag.name_of_ofName? hflag
      cases h with
      | here faulty =>
          have hfits : flag.Fits value := Classical.byContradiction fun hunfit => by
            rw [set_eq_none_iff.mpr hunfit] at hset
            cases hset
          exact absurd faulty (sound_pair_iff.mpr hfits e)
      | later sound fault => exact ih fault

/-- Items are all sound, or there is a first fault. -/
theorem sound_or_fault (items : List Item) :
    (∀ item ∈ items, Sound item) ∨ ∃ e, FirstFault items e := by
  induction items with
  | nil => exact .inl fun item hitem => absurd hitem List.not_mem_nil
  | cons item rest ih =>
      by_cases hitem : Sound item
      · rcases ih with hrest | ⟨e, he⟩
        · exact .inl (List.forall_mem_cons.mpr ⟨hitem, hrest⟩)
        · exact .inr ⟨e, .later hitem he⟩
      · obtain ⟨e, he⟩ := Classical.not_forall_not.mp hitem
        exact .inr ⟨e, .here he⟩

end Arguments

/-! ## §3  The settings -/

namespace Settings

open Arguments

/-- The layer of the file: that of the last file named, and an empty one where none is. -/
def FileLayer (load : String → Except SettingsError Layer) (items : List Item) (file : Layer) :
    Prop :=
  match last .config items with
  | none => file = {}
  | some path => load path = .ok file

def chosenHost (items : List Item) (file : Layer) : String :=
  ((last .host items).or file.host).getD default.host

def chosenPort (items : List Item) (file : Layer) : Nat :=
  ((lastUint32 .port items).or file.port).getD default.port

/-- What a command line means, with `load` to read a file. -/
inductive Layered (load : String → Except SettingsError Layer) (items : List Item) :
    Except SettingsError Settings → Prop
  /-- A faulty item decides alone: no file is asked for. -/
  | faulty {e : SettingsError} (fault : FirstFault items e) : Layered load items (.error e)
  | unloaded {path : String} {e : SettingsError} (sound : ∀ item ∈ items, Sound item)
      (named : last .config items = some path) (fault : load path = .error e) :
      Layered load items (.error e)
  | emptyHost {file : Layer} (sound : ∀ item ∈ items, Sound item)
      (loaded : FileLayer load items file)
      (blank : Blank.isBlankText (chosenHost items file) = true) :
      Layered load items (.error .emptyHost)
  | invalidPort {file : Layer} (sound : ∀ item ∈ items, Sound item)
      (loaded : FileLayer load items file)
      (text : Blank.isBlankText (chosenHost items file) = false)
      (outside : ¬ (1 ≤ chosenPort items file ∧ chosenPort items file ≤ 65535)) :
      Layered load items (.error (.invalidPort (chosenPort items file)))
  | settled {file : Layer} {s : Settings} (sound : ∀ item ∈ items, Sound item)
      (loaded : FileLayer load items file)
      (text : Blank.isBlankText (chosenHost items file) = false)
      (inside : 1 ≤ chosenPort items file ∧ chosenPort items file ≤ 65535)
      (host : s.host = chosenHost items file)
      (port : s.port = chosenPort items file)
      (retryInterval : s.retryInterval =
        (((lastUint64 .retryInterval items).or file.retryInterval).map .ofMillis).getD
          default.retryInterval)
      (maxRetryDelay : s.maxRetryDelay =
        (((lastUint64 .maxRetryDelay items).or file.maxRetryDelay).map .ofMillis).getD
          default.maxRetryDelay)
      (replyTimeout : s.replyTimeout =
        (((lastUint64 .replyTimeout items).or file.replyTimeout).map .ofMillis).getD
          default.replyTimeout)
      (logLevel : s.logLevel = ((last .logLevel items).or file.logLevel).getD default.logLevel) :
      Layered load items (.ok s)

variable {load : String → Except SettingsError Layer} {args : List String}

theorem ofArguments_loaded {file : Layer} (h : ∀ item ∈ items args.tail, Sound item)
    (hfile : FileLayer load (items args.tail) file) :
    ofArguments load args = merge (given {} (items args.tail)).flags file := by
  unfold ofArguments ofProcess
  rw [scan_sound h]
  unfold FileLayer at hfile
  split at hfile
  · next hnamed => simp only [given, hnamed, hfile, Option.or_none]
  · next path hnamed => simp only [given, hnamed, hfile, Option.or_none]

theorem ofArguments_unloaded {path : String} {e : SettingsError}
    (h : ∀ item ∈ items args.tail, Sound item) (hnamed : last .config (items args.tail) = some path)
    (hfault : load path = .error e) : ofArguments load args = .error e := by
  unfold ofArguments ofProcess
  rw [scan_sound h]
  simp only [given, hnamed, hfault, Option.or_none]

theorem choose_map {α β : Type} (f : α → β) (upper lower : Option α) (d : β) :
    choose (upper.map f) (lower.map f) d = ((upper.or lower).map f).getD d := by
  cases upper <;> rfl

theorem merge_given (items : List Item) (file : Layer) :
    merge (given {} items).flags file =
      if Blank.isBlankText (chosenHost items file) then .error .emptyHost
      else if chosenPort items file < 1 ∨ 65535 < chosenPort items file then
        .error (.invalidPort (chosenPort items file))
      else .ok
        { host := chosenHost items file
          port := chosenPort items file
          retryInterval :=
            (((lastUint64 .retryInterval items).or file.retryInterval).map .ofMillis).getD
              default.retryInterval
          maxRetryDelay :=
            (((lastUint64 .maxRetryDelay items).or file.maxRetryDelay).map .ofMillis).getD
              default.maxRetryDelay
          replyTimeout :=
            (((lastUint64 .replyTimeout items).or file.replyTimeout).map .ofMillis).getD
              default.replyTimeout
          logLevel := ((last .logLevel items).or file.logLevel).getD default.logLevel } := by
  simp only [merge, given, Option.or_none, choose_map]
  rfl

/-- What a command line means is what it is read as. -/
theorem Layered.ofArguments_eq {r : Except SettingsError Settings}
    (h : Layered load (items args.tail) r) : ofArguments load args = r := by
  cases h with
  | faulty fault =>
      unfold ofArguments ofProcess
      rw [scan_fault fault]
  | unloaded sound named fault => exact ofArguments_unloaded sound named fault
  | emptyHost sound loaded blank =>
      rw [ofArguments_loaded sound loaded, merge_given, if_pos blank]
  | invalidPort sound loaded text outside =>
      rw [ofArguments_loaded sound loaded, merge_given, if_neg (by simp [text]),
        if_pos (by omega)]
  | @settled file s sound loaded text inside host port retryInterval maxRetryDelay replyTimeout
      logLevel =>
      rw [ofArguments_loaded sound loaded, merge_given, if_neg (by simp [text]),
        if_neg (by omega), ← host, ← port, ← retryInterval, ← maxRetryDelay, ← replyTimeout,
        ← logLevel]

/-- Every command line means something. -/
theorem exists_layered (load : String → Except SettingsError Layer) (items : List Item) :
    ∃ r, Layered load items r := by
  rcases sound_or_fault items with hsound | ⟨e, hfault⟩
  · have hloaded : ∀ file, FileLayer load items file → ∃ r, Layered load items r := by
      intro file hfile
      cases htext : Blank.isBlankText (chosenHost items file) with
      | true => exact ⟨_, .emptyHost hsound hfile htext⟩
      | false =>
          by_cases hport : 1 ≤ chosenPort items file ∧ chosenPort items file ≤ 65535
          · exact ⟨.ok ⟨_, _, _, _, _, _⟩,
              .settled hsound hfile htext hport rfl rfl rfl rfl rfl rfl⟩
          · exact ⟨_, .invalidPort hsound hfile htext hport⟩
    cases hnamed : last .config items with
    | none => exact hloaded {} (by simp [FileLayer, hnamed])
    | some path =>
        cases hload : load path with
        | error e => exact ⟨_, .unloaded hsound hnamed hload⟩
        | ok file => exact hloaded file (by simp [FileLayer, hnamed, hload])
  · exact ⟨_, .faulty hfault⟩

/-- Two ways to read files lead to the same where they do in the one file that is opened. -/
theorem ofArguments_congr {load' : String → Except SettingsError Layer}
    (h : ∀ path, (∀ item ∈ items args.tail, Sound item) →
      last .config (items args.tail) = some path →
      (load path).bind (merge (given {} (items args.tail)).flags) =
        (load' path).bind (merge (given {} (items args.tail)).flags)) :
    ofArguments load args = ofArguments load' args := by
  rcases sound_or_fault (items args.tail) with hsound | ⟨e, hfault⟩
  · cases hnamed : last .config (items args.tail) with
    | none =>
        have hunopened : ∀ load, FileLayer load (items args.tail) {} := fun load => by
          simp [FileLayer, hnamed]
        rw [ofArguments_loaded hsound (hunopened load), ofArguments_loaded hsound (hunopened load')]
    | some path =>
        have hopened : ∀ load : String → Except SettingsError Layer,
            ofArguments load args =
              (load path).bind (merge (given {} (items args.tail)).flags) := by
          intro load
          cases hload : load path with
          | error e => exact ofArguments_unloaded hsound hnamed hload
          | ok file => exact ofArguments_loaded hsound (by simp [FileLayer, hnamed, hload])
        rw [hopened load, hopened load', h path hsound hnamed]
  · rw [Layered.ofArguments_eq (.faulty hfault), Layered.ofArguments_eq (.faulty hfault)]

/-- A change to the file that the choice does not see. -/
theorem ofArguments_map {g : Layer → Layer}
    (h : (∀ item ∈ items args.tail, Sound item) → ∀ file,
      merge (given {} (items args.tail)).flags (g file) =
        merge (given {} (items args.tail)).flags file) :
    ofArguments (fun path => (load path).map g) args = ofArguments load args := by
  apply ofArguments_congr
  intro path hsound _
  cases load path with
  | error e => rfl
  | ok file => exact h hsound file

theorem lt_of_lastUint64 {flag : Flag} {items : List Item} {n : Nat}
    (h : lastUint64 flag items = some n) : n < 2 ^ 64 := by
  obtain ⟨value, -, hvalue⟩ := Option.bind_eq_some_iff.mp h
  simpa using (Option.filter_eq_some_iff.mp hvalue).2

/-- What is said of the settings of a command line. -/
structure Layering (load : String → Except SettingsError Layer) (args : List String) : Prop where
  /-- The program's name apart, the items mean just what is returned. -/
  meaning : ∀ r, ofArguments load args = r ↔ Layered load (items args.tail) r
  /-- Of all files at most one is opened: the last one named, when every item is sound. -/
  opened : ∀ load', (∀ path, (∀ item ∈ items args.tail, Sound item) →
    last .config (items args.tail) = some path → load path = load' path) →
    ofArguments load args = ofArguments load' args
  /-- Under a flag it does not matter what host the file gives, -/
  hostOverridden : ∀ value, last .host (items args.tail) = some value →
    ∀ host, ofArguments (fun path => (load path).map ({ · with host })) args =
      ofArguments load args
  /-- nor what port. -/
  portOverridden : ∀ value, last .port (items args.tail) = some value →
    ∀ port, ofArguments (fun path => (load path).map ({ · with port })) args =
      ofArguments load args
  /-- The milliseconds of a flag are within the range of durations. -/
  exact : ∀ flag n, lastUint64 flag (items args.tail) = some n →
    (Duration.ofMillis n).nanos = n * 10 ^ 6

/-- **The settings are layered**: whatever stands on the command line and whatever reading a file
comes to. -/
theorem settings_layered (load : String → Except SettingsError Layer) (args : List String) :
    Layering load args := by
  refine ⟨fun r => ⟨?_, Layered.ofArguments_eq⟩, ?_, ?_, ?_, ?_⟩
  · rintro rfl
    obtain ⟨r, hr⟩ := exists_layered load (items args.tail)
    rw [hr.ofArguments_eq]
    exact hr
  · intro load' hagree
    apply ofArguments_congr
    intro path hsound hnamed
    rw [hagree path hsound hnamed]
  · intro value hlast host
    apply ofArguments_map
    intro _ file
    simp only [merge_given, chosenHost, chosenPort, hlast, Option.some_or]
  · intro value hlast port
    apply ofArguments_map
    intro hsound file
    obtain ⟨n, hn⟩ := fits_last hsound hlast
    have hgiven : lastUint32 .port (items args.tail) = some n := by
      rw [lastUint32, hlast]
      exact hn
    simp only [merge_given, chosenHost, chosenPort, hgiven, Option.some_or]
  · intro flag n hn
    have hrange := lt_of_lastUint64 hn
    refine Nat.min_eq_left ?_
    show n * 10 ^ 6 ≤ (2 ^ 64 - 1) * 10 ^ 9 + 999999999
    omega

/-- A value may look like a flag, the last value counts, and the file's port is not looked at. -/
example :
    ofArguments (fun _ => .ok { port := some 0, logLevel := some "debug" })
      ["client", "--host", "--port", "--port", "7000", "--config", "c", "--port", "+7001"] =
    .ok { host := "--port", port := 7001, logLevel := "debug" } := by
  rfl

end Settings

end RespClient
