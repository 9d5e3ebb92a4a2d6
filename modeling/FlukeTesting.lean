import FlukeTesting.Lib.Search
import FlukeTesting.Lib.Words
import FlukeTesting.Lib.Scanf
import FlukeTesting.Lib.Outcome
import FlukeTesting.Lib.Collect
import FlukeTesting.Lib.Cut
import FlukeTesting.Lib.Phases
import FlukeTesting.Lib.Single
import FlukeTesting.Lib.Simulation
import FlukeTesting.Lib.Transport
import FlukeTesting.Lib.Recorder
import FlukeTesting.Lib.Plans
import FlukeTesting.Lib.Chain
import FlukeTesting.Lib.Extent
import FlukeTesting.Lib.Statistics
import FlukeTesting.Lib.Polyline
import FlukeTesting.Lib.Interpolation
import FlukeTesting.Lib.Decimal
import FlukeTesting.Lib.Gregorian
import FlukeTesting.Lib.Awk
import FlukeTesting.Lib.Printf
import FlukeTesting.Lib.Getopt
import FlukeTesting.Lib.Tally
import FlukeTesting.Lib.Lines
import FlukeTesting.Lib.Shell
import FlukeTesting.Lib.Bench
import FlukeTesting.Lib.Congruential
import FlukeTesting.Statstool.Buffer
import FlukeTesting.Statstool.Analyse
import FlukeTesting.Statstool.Timestamp
import FlukeTesting.Statstool.Parse
import FlukeTesting.Statstool.Events
import FlukeTesting.Statstool.Collected
import FlukeTesting.Statstool.Locality
import FlukeTesting.Statstool.Framing
import FlukeTesting.Statstool.Log
import FlukeTesting.Statstool.TagEncoding
import FlukeTesting.Statstool.Bounds
import FlukeTesting.Statstool.SlotSafety
import FlukeTesting.Statstool.PointList
import FlukeTesting.Statstool.PointMemory
import FlukeTesting.Statstool.Reports
import FlukeTesting.Statstool.EventOrder
import FlukeTesting.Statstool.Passing
import FlukeTesting.Statstool.Segmentation
import FlukeTesting.Statstool.Contamination
import FlukeTesting.Statstool.AllSamples
import FlukeTesting.Statstool.Attribution
import FlukeTesting.Statstool.Extraction
import FlukeTesting.Statstool.Divisors
import FlukeTesting.Statstool.Extremes
import FlukeTesting.Statstool.RunStatistics
import FlukeTesting.Statstool.Scaling
import FlukeTesting.Statstool.Spread
import FlukeTesting.Statstool.Population
import FlukeTesting.Statstool.Area
import FlukeTesting.Statstool.Table
import FlukeTesting.Statstool.ElapsedTime
import FlukeTesting.Statstool.SampleTimes
import FlukeTesting.Statstool.TimeOrigin
import FlukeTesting.Statstool.Recorded
import FlukeTesting.Statstool.Main
import FlukeTesting.UdpRelay.Relay
import FlukeTesting.Drivers.Messages
import FlukeTesting.Drivers.Scripts
import FlukeTesting.Drivers.Sessions
import FlukeTesting.Drivers.Runs
import FlukeTesting.Drivers.Relayed
import FlukeTesting.Drivers.Joined
import FlukeTesting.PowerstatMeasuring.ParseLog
import FlukeTesting.PowerstatMeasuring.Blocks
import FlukeTesting.PowerstatMeasuring.Collation
import FlukeTesting.PowerstatMeasuring.RunTest
import FlukeTesting.PowerstatMeasuring.Formulas
import FlukeTesting.HddMonitorIo.Busyio
import FlukeTesting.HddMonitorIo.Report
import FlukeTesting.HddMonitorIo.Forward
import FlukeTesting.PmTests.Settings
import FlukeTesting.PowertopTweaks.Settings
import FlukeTesting.GenericTests.Random
