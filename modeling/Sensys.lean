import Sensys.Orcm.LogicalGroupSkip
import Sensys.Orcm.ScdWork
import Sensys.Orte.RoutedReach
import Sensys.Orcm.ScdExclusive
import Sensys.Orcm.AllocWire
import Sensys.Orcm.DataContainer
import Sensys.Orcm.CfgiNumbering
import Sensys.Orcm.WindowRun
import Sensys.Orcm.WorkflowWire
import Sensys.Orcm.File30Case
import Sensys.Orcm.CottHistory
import Sensys.Orcm.CottIsolation
import Sensys.Orcm.Dispatch
import Sensys.Orcm.SelCollector
import Sensys.Orcm.McedataRuns
import Sensys.Orcm.Errcounts
import Sensys.Orcm.SensorValue
import Sensys.Orcm.RuntimeMetricsRuns
import Sensys.Orcm.Inventory
import Sensys.Orcm.SyslogWire
import Sensys.Orcm.SensorRecv
import Sensys.Orcm.IpmiHal
import Sensys.Orcm.DbHandles
import Sensys.Orcm.PugiSave
import Sensys.Orcm.PugiWrite
import Sensys.Orcm.LogicalGroupFile
import Sensys.Orcm.DbQuery
import Sensys.Orcm.Durations
import Sensys.Orcm.EventFilters
import Sensys.Orcm.Aggregate
import Sensys.Orcm.LogicalGroupList
import Sensys.Orcm.CfgiCompare
import Sensys.Orcm.CottMask
import Sensys.Orcm.ScdDown
import Sensys.Orcm.ScdQueues
import Sensys.Orcm.ScdTopologies
import Sensys.Orcm.ScdTracking
import Sensys.Opal.DssValue
import Sensys.Orcm.SplitString
import Sensys.Orcm.WindowResults
import Sensys.Orcm.Nodepower
import Sensys.Orcm.SensorLimit
import Sensys.Orcm.McedataDecode
import Sensys.Orcm.IpmiResponse
