import GCode.Flavor.Basic

/-!
# The standard flavor

The tables of the RS274/NGC interpreter, version 3.
-/

namespace GCode.Flavor

def standardName : String := "rs274ngc"

namespace Standard

def code (code meaning : String) (doc : Option String := none) : CodeDefinition :=
  { code, meaning, doc }

def codes : List CodeDefinition := [
    code "G0" "rapid positioning"
      (some ("Move in a straight line at traverse rate to the programmed point. With several axes "
        ++ "programmed, all of them move at once and arrive together.")),
    code "G1" "linear interpolation"
      (some "Move in a straight line at the current feed rate to the programmed point."),
    code "G2" "circular/helical interpolation (clockwise)",
    code "G3" "circular/helical interpolation (counterclockwise)",
    code "G4" "dwell"
      (some "Dwell for the number of seconds given by the P word. P must not be negative."),
    code "G10" "coordinate system origin setting",
    code "G17" "XY-plane selection",
    code "G18" "XZ-plane selection",
    code "G19" "YZ-plane selection",
    code "G20" "inch system selection",
    code "G21" "millimeter system selection",
    code "G28" "return to home",
    code "G30" "return to secondary home",
    code "G38.2" "straight probe"
      (some ("Probe toward the programmed point and stop when the probe trips. The trip position "
        ++ "is stored in parameters 5061 to 5066.")),
    code "G40" "cancel cutter radius compensation",
    code "G41" "start cutter radius compensation left",
    code "G42" "start cutter radius compensation right",
    code "G43" "tool length offset (plus)",
    code "G49" "cancel tool length offset",
    code "G53" "motion in machine coordinate system",
    code "G54" "use preset work coordinate system 1",
    code "G55" "use preset work coordinate system 2",
    code "G56" "use preset work coordinate system 3",
    code "G57" "use preset work coordinate system 4",
    code "G58" "use preset work coordinate system 5",
    code "G59" "use preset work coordinate system 6",
    code "G59.1" "use preset work coordinate system 7",
    code "G59.2" "use preset work coordinate system 8",
    code "G59.3" "use preset work coordinate system 9",
    code "G61" "set path control mode: exact path",
    code "G61.1" "set path control mode: exact stop",
    code "G64" "set path control mode: continuous",
    code "G80" "cancel motion mode (including any canned cycle)"
      (some "Cancel the active motion mode. An axis word on the same line is an error."),
    code "G81" "canned cycle: drilling",
    code "G82" "canned cycle: drilling with dwell",
    code "G83" "canned cycle: peck drilling",
    code "G84" "canned cycle: right hand tapping",
    code "G85" "canned cycle: boring, no dwell, feed out",
    code "G86" "canned cycle: boring, spindle stop, rapid out",
    code "G87" "canned cycle: back boring",
    code "G88" "canned cycle: boring, spindle stop, manual out",
    code "G89" "canned cycle: boring, dwell, feed out",
    code "G90" "absolute distance mode",
    code "G91" "incremental distance mode",
    code "G92" "offset coordinate systems and set parameters",
    code "G92.1" "cancel offset coordinate systems and set parameters to zero",
    code "G92.2" "cancel offset coordinate systems but do not reset parameters",
    code "G92.3" "apply parameters to offset coordinate systems",
    code "G93" "inverse time feed rate mode",
    code "G94" "units per minute feed rate mode",
    code "G98" "initial level return in canned cycles",
    code "G99" "R-point level return in canned cycles",
    code "M0" "program stop",
    code "M1" "optional program stop",
    code "M2" "program end",
    code "M3" "turn spindle clockwise",
    code "M4" "turn spindle counterclockwise",
    code "M5" "stop spindle turning",
    code "M6" "tool change"
      (some "Change to the tool selected by the last T word."),
    code "M7" "mist coolant on",
    code "M8" "flood coolant on",
    code "M9" "mist and flood coolant off",
    code "M30" "program end, pallet shuttle, and reset",
    code "M48" "enable speed and feed overrides",
    code "M49" "disable speed and feed overrides",
    code "M60" "pallet shuttle and program stop",
    code "F" "set feed rate",
    code "S" "set spindle speed",
    code "T" "select tool"]

def letters : List LetterDefinition := [
    ⟨"A", "A-axis of machine"⟩,
    ⟨"B", "B-axis of machine"⟩,
    ⟨"C", "C-axis of machine"⟩,
    ⟨"D", "tool radius compensation number"⟩,
    ⟨"F", "feedrate"⟩,
    ⟨"G", "general function (see Table 5)"⟩,
    ⟨"H", "tool length offset index"⟩,
    ⟨"I", "X-axis offset for arcs / X offset in G87 canned cycle"⟩,
    ⟨"J", "Y-axis offset for arcs / Y offset in G87 canned cycle"⟩,
    ⟨"K", "Z-axis offset for arcs / Z offset in G87 canned cycle"⟩,
    ⟨"L", "number of repetitions in canned cycles / key used with G10"⟩,
    ⟨"M", "miscellaneous function (see Table 7)"⟩,
    ⟨"N", "line number"⟩,
    ⟨"P", "dwell time in canned cycles / dwell time with G4 / key used with G10"⟩,
    ⟨"Q", "feed increment in G83 canned cycle"⟩,
    ⟨"R", "arc radius"⟩,
    ⟨"S", "canned cycle plane / spindle speed"⟩,
    ⟨"T", "tool selection"⟩,
    ⟨"X", "X-axis of machine"⟩,
    ⟨"Y", "Y-axis of machine"⟩,
    ⟨"Z", "Z-axis of machine"⟩]

def modal (kind : GroupKind) (index : UInt32) (meaning : String) (codes : List String) :
    ModalGroupDefinition :=
  { kind, index, meaning, codes }

def modalGroups : List ModalGroupDefinition := [
    modal .g 0 "non-modal codes"
      ["G4", "G10", "G28", "G30", "G53", "G92-G92.3"],
    modal .g 1 "motion"
      ["G0-G3", "G38.2", "G80-G89"],
    modal .g 2 "plane selection"
      ["G17", "G18", "G19"],
    modal .g 3 "distance mode"
      ["G90", "G91"],
    modal .g 5 "feed rate mode"
      ["G93", "G94"],
    modal .g 6 "units"
      ["G20", "G21"],
    modal .g 7 "cutter radius compensation"
      ["G40", "G41", "G42"],
    modal .g 8 "tool length offset"
      ["G43", "G49"],
    modal .g 10 "return mode in canned cycles"
      ["G98", "G99"],
    modal .g 12 "coordinate system selection"
      ["G54-G59.3"],
    modal .g 13 "path control mode"
      ["G61", "G61.1", "G64"],
    modal .m 4 "stopping"
      ["M0", "M1", "M2", "M30", "M60"],
    modal .m 6 "tool change"
      ["M6"],
    modal .m 7 "spindle turning"
      ["M3", "M4", "M5"],
    modal .m 8 "coolant"
      ["M7", "M8", "M9"],
    modal .m 9 "enable/disable feed and speed override switches"
      ["M48", "M49"]]

def step (index : UInt32) (meaning : String) (codes : List String) : ExecutionGroupDefinition :=
  { index, meaning, codes }

def executionOrder : List ExecutionGroupDefinition := [
    step 1 "comment (includes message)"
      ["COMMENT"],
    step 2 "set feed rate mode"
      ["G93", "G94"],
    step 3 "set feed rate"
      ["F"],
    step 4 "set spindle speed"
      ["S"],
    step 5 "select tool"
      ["T"],
    step 6 "change tool"
      ["M6"],
    step 7 "spindle on or off"
      ["M3", "M4", "M5"],
    step 8 "coolant on or off"
      ["M7", "M8", "M9"],
    step 9 "enable or disable overrides"
      ["M48", "M49"],
    step 10 "dwell"
      ["G4"],
    step 11 "set active plane"
      ["G17", "G18", "G19"],
    step 12 "set length units"
      ["G20", "G21"],
    step 13 "cutter radius compensation on or off"
      ["G40", "G41", "G42"],
    step 14 "cutter length compensation on or off"
      ["G43", "G49"],
    step 15 "coordinate system selection"
      ["G54-G59.3"],
    step 16 "set path control mode"
      ["G61", "G61.1", "G64"],
    step 17 "set distance mode"
      ["G90", "G91"],
    step 18 "set retract mode"
      ["G98", "G99"],
    step 19 "home, change coordinate system data or set axis offsets"
      ["G28", "G30", "G10", "G92-G92.3"],
    step 20 "perform motion, as modified (possibly) by G53"
      ["G0-G3", "G38.2", "G53", "G80-G89"],
    step 21 "stop"
      ["M0", "M1", "M2", "M30", "M60"]]

def parameters : List ParameterDefinition := [
    ⟨5161, 0.0, "G28 home X"⟩,
    ⟨5162, 0.0, "G28 home Y"⟩,
    ⟨5163, 0.0, "G28 home Z"⟩,
    ⟨5164, 0.0, "G28 home A"⟩,
    ⟨5165, 0.0, "G28 home B"⟩,
    ⟨5166, 0.0, "G28 home C"⟩,
    ⟨5181, 0.0, "G30 home X"⟩,
    ⟨5182, 0.0, "G30 home Y"⟩,
    ⟨5183, 0.0, "G30 home Z"⟩,
    ⟨5184, 0.0, "G30 home A"⟩,
    ⟨5185, 0.0, "G30 home B"⟩,
    ⟨5186, 0.0, "G30 home C"⟩,
    ⟨5211, 0.0, "G92 offset X"⟩,
    ⟨5212, 0.0, "G92 offset Y"⟩,
    ⟨5213, 0.0, "G92 offset Z"⟩,
    ⟨5214, 0.0, "G92 offset A"⟩,
    ⟨5215, 0.0, "G92 offset B"⟩,
    ⟨5216, 0.0, "G92 offset C"⟩,
    ⟨5220, 1.0, "coordinate system number"⟩,
    ⟨5221, 0.0, "coordinate system 1 X"⟩,
    ⟨5222, 0.0, "coordinate system 1 Y"⟩,
    ⟨5223, 0.0, "coordinate system 1 Z"⟩,
    ⟨5224, 0.0, "coordinate system 1 A"⟩,
    ⟨5225, 0.0, "coordinate system 1 B"⟩,
    ⟨5226, 0.0, "coordinate system 1 C"⟩,
    ⟨5241, 0.0, "coordinate system 2 X"⟩,
    ⟨5242, 0.0, "coordinate system 2 Y"⟩,
    ⟨5243, 0.0, "coordinate system 2 Z"⟩,
    ⟨5244, 0.0, "coordinate system 2 A"⟩,
    ⟨5245, 0.0, "coordinate system 2 B"⟩,
    ⟨5246, 0.0, "coordinate system 2 C"⟩,
    ⟨5261, 0.0, "coordinate system 3 X"⟩,
    ⟨5262, 0.0, "coordinate system 3 Y"⟩,
    ⟨5263, 0.0, "coordinate system 3 Z"⟩,
    ⟨5264, 0.0, "coordinate system 3 A"⟩,
    ⟨5265, 0.0, "coordinate system 3 B"⟩,
    ⟨5266, 0.0, "coordinate system 3 C"⟩,
    ⟨5281, 0.0, "coordinate system 4 X"⟩,
    ⟨5282, 0.0, "coordinate system 4 Y"⟩,
    ⟨5283, 0.0, "coordinate system 4 Z"⟩,
    ⟨5284, 0.0, "coordinate system 4 A"⟩,
    ⟨5285, 0.0, "coordinate system 4 B"⟩,
    ⟨5286, 0.0, "coordinate system 4 C"⟩,
    ⟨5301, 0.0, "coordinate system 5 X"⟩,
    ⟨5302, 0.0, "coordinate system 5 Y"⟩,
    ⟨5303, 0.0, "coordinate system 5 Z"⟩,
    ⟨5304, 0.0, "coordinate system 5 A"⟩,
    ⟨5305, 0.0, "coordinate system 5 B"⟩,
    ⟨5306, 0.0, "coordinate system 5 C"⟩,
    ⟨5321, 0.0, "coordinate system 6 X"⟩,
    ⟨5322, 0.0, "coordinate system 6 Y"⟩,
    ⟨5323, 0.0, "coordinate system 6 Z"⟩,
    ⟨5324, 0.0, "coordinate system 6 A"⟩,
    ⟨5325, 0.0, "coordinate system 6 B"⟩,
    ⟨5326, 0.0, "coordinate system 6 C"⟩,
    ⟨5341, 0.0, "coordinate system 7 X"⟩,
    ⟨5342, 0.0, "coordinate system 7 Y"⟩,
    ⟨5343, 0.0, "coordinate system 7 Z"⟩,
    ⟨5344, 0.0, "coordinate system 7 A"⟩,
    ⟨5345, 0.0, "coordinate system 7 B"⟩,
    ⟨5346, 0.0, "coordinate system 7 C"⟩,
    ⟨5361, 0.0, "coordinate system 8 X"⟩,
    ⟨5362, 0.0, "coordinate system 8 Y"⟩,
    ⟨5363, 0.0, "coordinate system 8 Z"⟩,
    ⟨5364, 0.0, "coordinate system 8 A"⟩,
    ⟨5365, 0.0, "coordinate system 8 B"⟩,
    ⟨5366, 0.0, "coordinate system 8 C"⟩,
    ⟨5381, 0.0, "coordinate system 9 X"⟩,
    ⟨5382, 0.0, "coordinate system 9 Y"⟩,
    ⟨5383, 0.0, "coordinate system 9 Z"⟩,
    ⟨5384, 0.0, "coordinate system 9 A"⟩,
    ⟨5385, 0.0, "coordinate system 9 B"⟩,
    ⟨5386, 0.0, "coordinate system 9 C"⟩]

def definition : FlavorDefinition where
  name := standardName
  version := some "3"
  description := some "RS274/NGC as specified by NIST IR 6556"
  codes := codes
  letters := letters
  modalGroups := modalGroups
  executionOrder := executionOrder
  parameters := parameters

end Standard

def standard : Except LoadError Flavor :=
  load Standard.definition

end GCode.Flavor
