import Tektite.Bytes
import Tektite.Encoding
import Tektite.Iteration
import Tektite.SST.Build
import Tektite.SST.Run
import Tektite.SST.Layout
import Tektite.SST.Contract
import Tektite.SST.Codec
import Tektite.SST.FindOffset
import Tektite.SST.Scan
import Tektite.Strings
import Tektite.Types.ColumnType
import Tektite.Kafka.SegmentClient
