import OzoneRust.Datanode.Service
import OzoneRust.Ec.Casts
import OzoneRust.Ec.Lengths
import OzoneRust.Ec.Shards
import OzoneRust.EcBoundaries
import OzoneRust.Datanode.Acknowledged
import OzoneRust.Datanode.Closed
import OzoneRust.Datanode.Dangling
import OzoneRust.Datanode.Reports
import OzoneRust.Datanode.Heartbeat
import OzoneRust.Datanode.Independence
import OzoneRust.Datanode.Persist
import OzoneRust.Datanode.Redelivery
import OzoneRust.Datanode.Scrub
import OzoneRust.Datanode.Streams
import OzoneRust.Gateway.AwsChunked
import OzoneRust.Gateway.Consistency
import OzoneRust.Gateway.CreateOnly
import OzoneRust.Gateway.Dates
import OzoneRust.Gateway.Deletion
import OzoneRust.Gateway.Etags
import OzoneRust.Gateway.Keys
import OzoneRust.Gateway.Pagination
import OzoneRust.Gateway.Range
import OzoneRust.Gateway.OnNodes
import OzoneRust.Gateway.Tags
import OzoneRust.Storage.Bursts
import OzoneRust.Storage.ChunkTasks
import OzoneRust.Storage.Overflow
import OzoneRust.Storage.Refinement
