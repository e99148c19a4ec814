import Cagebreak.Resize
import Cagebreak.IpcRuns
import Cagebreak.OutputConfig
import Cagebreak.Libinput
import Cagebreak.OutputArrays
import Cagebreak.OutputScenes
import Cagebreak.OutputSteps
import Cagebreak.OutputEnabled
import Cagebreak.Lib.Forest
import Cagebreak.SceneServer
import Cagebreak.SceneNodes
import Cagebreak.Dump
import Cagebreak.DumpTexts
import Cagebreak.Lib.Json
import Cagebreak.Lib.JsonReads
import Cagebreak.DumpJson
import Cagebreak.Lib.Snprintf
import Cagebreak.DynStr
import Cagebreak.DumpArrays
import Cagebreak.DumpStrings
import Cagebreak.DumpPayload
import Cagebreak.Events
import Cagebreak.Lib.Strto
import Cagebreak.Lib.Reader
import Cagebreak.ParseConfigs
import Cagebreak.Parse
import Cagebreak.ParseHistory
import Cagebreak.Lib.JsonNumbers
import Cagebreak.DumpState
import Cagebreak.KeyServer
import Cagebreak.KeyModes
import Cagebreak.KeyOwners
import Cagebreak.KeyRepeat
import Cagebreak.KeyPresses
import Cagebreak.Lib.Ranking
import Cagebreak.OutputOrder
import Cagebreak.ViewLists
import Cagebreak.Current
import Cagebreak.Shown
import Cagebreak.ShownSteps
import Cagebreak.ShownMoves
import Cagebreak.ShownOutputs
import Cagebreak.ShownUnplug
import Cagebreak.ShownViews
import Cagebreak.ShownRuns
import Cagebreak.ResizeLine
import Cagebreak.Neighbours
import Cagebreak.KeyboardGroups
import Cagebreak.Valid
import Cagebreak.Swap
import Cagebreak.ViewRings
import Cagebreak.CycleViews
import Cagebreak.Unmap
import Cagebreak.Merge
import Cagebreak.TileReferences
import Cagebreak.MoveView
import Cagebreak.DropWorkspaces
import Cagebreak.SetNws
import Cagebreak.MergeConfigs
import Cagebreak.KeyMap
import Cagebreak.Lib.FloatArith
import Cagebreak.ParseFloats
import Cagebreak.ParseErrors
import Cagebreak.KeyDefinitions
import Cagebreak.ParseOutputs
import Cagebreak.ParseInputs
import Cagebreak.ParseOperands
import Cagebreak.Frames
import Cagebreak.IntResize
import Cagebreak.Cursor
import Cagebreak.Backgrounds
import Cagebreak.KeyGrowth
import Cagebreak.ConfigFile
import Cagebreak.Lib.Trim
import Cagebreak.InputIdentifier
import Cagebreak.CurrentRuns
import Cagebreak.Focus
import Cagebreak.FocusRuns
import Cagebreak.Messages
import Cagebreak.PointerConstraints
import Cagebreak.SeatDevices
import Cagebreak.OutputNames
import Cagebreak.OutputGeometry
import Cagebreak.OutputReplug
import Cagebreak.DumpTitles
import Cagebreak.Filed
import Cagebreak.FiledMoves
import Cagebreak.FiledViews
import Cagebreak.FiledUnplug
import Cagebreak.FiledRuns
